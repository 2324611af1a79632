import Highlighting.Proofs.Engine.Protocol

/-! The rendered document of a run is that of a sequence of calls of the proper form, piece by piece. -/
namespace Highlighting

def Call.isWrite : Call → Bool
  | .write _ => true
  | _ => false

theorem Call.text_of_not_write {call : Call} (hcall : call.isWrite = false) : call.text = #[] := by
  cases call with
  | write => cases hcall
  | _ => rfl

theorem Format.document_toList (format : Format) (options : OptionSet Lexer) (calls : Array Call) :
    (format.document options calls).toList =
      calls.toList.flatMap (fun call => (format.render options call).toList) := by
  -- The induction is over the calls still to come, for whatever has been written.
  have hfold (rest : List Call) (out : Bytes) :
      (rest.foldl (fun out call => out ++ format.render options call) out).toList =
        out.toList ++ rest.flatMap (fun call => (format.render options call).toList) := by
    induction rest generalizing out with
    | nil => simp
    | cons call rest ih => simp [ih]
  rw [Format.document, ← Array.foldl_toList, hfold]
  rfl

/-- Whatever a run renders to comes of calls that form a document. -/
theorem render_eq_ok {fuel : Nat} {catalog : Catalog} {host : Host} {config : EngineConfig}
    {source : Bytes} {lexers : List Lexer} {highlighted : Highlighted} {format : Format}
    {options : OptionSet Lexer} {output : Bytes}
    (hrun : highlight fuel catalog host config source lexers = some highlighted)
    (hrender : highlighted.render ⟨format, options⟩ = .ok output) :
    ∃ calls, highlighted.outcome = .ok calls ∧ IsDocument calls.toList ∧
      output.toList = calls.toList.flatMap (fun call => (format.render options call).toList) := by
  cases hok : highlighted.outcome with
  | error error =>
    rw [Highlighted.render, hok] at hrender
    cases hrender
  | ok calls =>
    rw [Highlighted.render, hok] at hrender
    cases hrender
    obtain ⟨lexer, others, scanned, -, hend, rfl⟩ := highlight_eq_ok hrun hok
    exact ⟨_, rfl, hend.isDocument, Format.document_toList format options _⟩

end Highlighting
