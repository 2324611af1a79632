import Highlighting.Proofs.Format.Document

/-! The HTML format writes markup that is well formed and loses nothing. Runs and delegates are nested
as the calls are, so tags are balanced; texts, the class of the document and names of lexers are escaped,
and the classes of kinds need not be, so every angle bracket belongs to a tag of the format, and what
stands between the tags is the text. -/
namespace Highlighting.Html

def markup (text : String) : List UInt8 :=
  (Bytes.ofText text).toList

def isAngle (b : UInt8) : Bool :=
  b == 0x3C || b == 0x3E

def Quotable (value : List UInt8) : Prop :=
  ∀ b ∈ value, isAngle b = false ∧ b ≠ 0x22

def opening (element : String) (class? : Option (List UInt8)) : List UInt8 :=
  markup "<" ++ markup element ++
    (match class? with
      | some value => markup " class=\"" ++ value ++ markup "\""
      | none => []) ++ markup ">"

def closing (element : String) : List UInt8 :=
  markup "</" ++ markup element ++ markup ">"

/-- Well-formed content: text without angle brackets, and `span` elements with a class that hold such
content themselves. -/
inductive Content : List UInt8 → Prop
  | empty : Content []
  | byte {b : UInt8} {rest : List UInt8} (hb : isAngle b = false) (hrest : Content rest) :
      Content (b :: rest)
  | span {value inner rest : List UInt8} (hvalue : Quotable value) (hinner : Content inner)
      (hrest : Content rest) :
      Content (opening "span" (some value) ++ inner ++ closing "span" ++ rest)

def IsPreElement (output : List UInt8) : Prop :=
  ∃ class? inner, (∀ value ∈ class?, Quotable value) ∧ Content inner ∧
    output = opening "pre" class? ++ inner ++ closing "pre"

/-- Takes markup apart into its tags and the text between them. While a tag is read, `tag?` holds what
there is of it, last byte first. There is no answer if an angle bracket is out of place. -/
def takeApart : (tag? : Option (List UInt8)) → List UInt8 → Option (List (List UInt8) × List UInt8)
  | none, [] => some ([], [])
  | some _, [] => none
  | none, b :: rest =>
    if b = 0x3C then takeApart (some [b]) rest
    else if b = 0x3E then none
    else (takeApart none rest).map (fun (tags, text) => (tags, b :: text))
  | some tag, b :: rest =>
    if b = 0x3C then none
    else if b = 0x3E then
      (takeApart none rest).map (fun (tags, text) => ((b :: tag).reverse :: tags, text))
    else takeApart (some (b :: tag)) rest

def decodeEntities : List UInt8 → List UInt8
  | [] => []
  | 0x26 :: 0x61 :: 0x6D :: 0x70 :: 0x3B :: rest => 0x26 :: decodeEntities rest
  | 0x26 :: 0x6C :: 0x74 :: 0x3B :: rest => 0x3C :: decodeEntities rest
  | 0x26 :: 0x67 :: 0x74 :: 0x3B :: rest => 0x3E :: decodeEntities rest
  | 0x26 :: 0x71 :: 0x75 :: 0x6F :: 0x74 :: 0x3B :: rest => 0x22 :: decodeEntities rest
  | b :: rest => b :: decodeEntities rest

def tag? (cssClass? : Option String) (call : Call) : Option (List UInt8) :=
  if call.isWrite ∨ render cssClass? call = #[] then none else some (render cssClass? call).toList

section Escaping

theorem escape_toList (b : UInt8) :
    (escape b).toList =
      if b = 0x26 then [0x26, 0x61, 0x6D, 0x70, 0x3B]
      else if b = 0x3C then [0x26, 0x6C, 0x74, 0x3B]
      else if b = 0x3E then [0x26, 0x67, 0x74, 0x3B]
      else if b = 0x22 then [0x26, 0x71, 0x75, 0x6F, 0x74, 0x3B]
      else [b] := by
  have hamp : (Bytes.ofText "&amp;").toList = [0x26, 0x61, 0x6D, 0x70, 0x3B] := rfl
  have hless : (Bytes.ofText "&lt;").toList = [0x26, 0x6C, 0x74, 0x3B] := rfl
  have hgreater : (Bytes.ofText "&gt;").toList = [0x26, 0x67, 0x74, 0x3B] := rfl
  have hquote : (Bytes.ofText "&quot;").toList = [0x26, 0x71, 0x75, 0x6F, 0x74, 0x3B] := rfl
  simp only [escape, beq_iff_eq, apply_ite Array.toList, hamp, hless, hgreater, hquote]

theorem escape_quotable (b : UInt8) : Quotable (escape b).toList := by
  rw [escape_toList]
  split
  · simp [Quotable, isAngle]
  split
  · simp [Quotable, isAngle]
  split
  · simp [Quotable, isAngle]
  split
  · simp [Quotable, isAngle]
  case isFalse _ hless hgreater hquote => simp [Quotable, isAngle, hless, hgreater, hquote]

theorem escapeText_toList (text : Bytes) :
    (escapeText text).toList = text.toList.flatMap (fun b => (escape b).toList) := by
  simp [escapeText]

theorem escapeText_quotable (text : Bytes) : Quotable (escapeText text).toList := by
  intro c hc
  rw [escapeText_toList] at hc
  obtain ⟨b, -, hb⟩ := List.mem_flatMap.mp hc
  exact escape_quotable b c hb

theorem decodeEntities_cons {b : UInt8} (hb : b ≠ 0x26) (rest : List UInt8) :
    decodeEntities (b :: rest) = b :: decodeEntities rest := by
  rw [decodeEntities.eq_def]
  split <;> simp_all

/-- A byte that is escaped is put back, whatever follows. -/
theorem decodeEntities_escape (b : UInt8) (rest : List UInt8) :
    decodeEntities ((escape b).toList ++ rest) = b :: decodeEntities rest := by
  rw [escape_toList]
  split
  case isTrue hamp => simp [decodeEntities, hamp]
  split
  case isTrue hless => simp [decodeEntities, hless]
  split
  case isTrue hgreater => simp [decodeEntities, hgreater]
  split
  case isTrue hquote => simp [decodeEntities, hquote]
  -- An ampersand of the text is never written as it is, so what follows cannot complete an entity.
  case isFalse hamp _ _ _ => exact decodeEntities_cons hamp rest

theorem decodeEntities_escapeText (texts : List UInt8) :
    decodeEntities (texts.flatMap (fun b => (escape b).toList)) = texts := by
  induction texts with
  | nil => rfl
  | cons b texts ih => rw [List.flatMap_cons, decodeEntities_escape, ih]

end Escaping

section Tags

variable {text : List UInt8}

theorem takeApart_text (htext : ∀ b ∈ text, isAngle b = false) (rest : List UInt8) :
    takeApart none (text ++ rest) =
      (takeApart none rest).map (fun parts => (parts.1, text ++ parts.2)) := by
  induction text with
  | nil => simp
  | cons b text ih =>
    obtain ⟨hb, htext⟩ := List.forall_mem_cons.mp htext
    simp only [isAngle, Bool.or_eq_false_iff, beq_eq_false_iff_ne] at hb
    simp [takeApart, hb, ih htext, Function.comp_def]

theorem takeApart_inside (htext : ∀ b ∈ text, isAngle b = false) (tag rest : List UInt8) :
    takeApart (some tag) (text ++ 0x3E :: rest) =
      (takeApart none rest).map
        (fun parts => ((tag.reverse ++ text ++ [0x3E]) :: parts.1, parts.2)) := by
  induction text generalizing tag with
  | nil => simp [takeApart]
  | cons b text ih =>
    obtain ⟨hb, htext⟩ := List.forall_mem_cons.mp htext
    simp only [isAngle, Bool.or_eq_false_iff, beq_eq_false_iff_ne] at hb
    simp [takeApart, hb, ih htext]

theorem takeApart_tag (htext : ∀ b ∈ text, isAngle b = false) (rest : List UInt8) :
    takeApart none (0x3C :: text ++ 0x3E :: rest) =
      (takeApart none rest).map
        (fun parts => ((0x3C :: text ++ [0x3E]) :: parts.1, parts.2)) := by
  have hinside := takeApart_inside htext [0x3C] rest
  simpa [takeApart] using hinside

end Tags

section Calls

theorem Quotable.angleFree {value : List UInt8} (h : Quotable value) :
    ∀ b ∈ value, isAngle b = false :=
  fun b hb => (h b hb).1

/-- No class of a kind needs escaping. -/
theorem escapeText_cssClass (kind : TokenKind) :
    escapeText (Bytes.ofText kind.cssClass) = Bytes.ofText kind.cssClass := by
  have hall : ∀ kind ∈ TokenKind.all,
      escapeText (Bytes.ofText kind.cssClass) = Bytes.ofText kind.cssClass := by
    decide +kernel
  exact hall kind kind.mem_all

theorem spanClass_quotable {kind : TokenKind} {cssClass : String} (h : spanClass? kind = some cssClass) :
    Quotable (Bytes.ofText cssClass).toList := by
  unfold spanClass? at h
  split at h
  · cases h
  · cases h
    rw [← escapeText_cssClass kind]
    exact escapeText_quotable _

theorem openTag_toList (element : String) (cssClass : Bytes) :
    (openTag element cssClass).toList = opening element (some cssClass.toList) := by
  -- The format writes the last quote and bracket in one piece.
  have hend : markup "\">" = markup "\"" ++ markup ">" := rfl
  simp only [openTag, opening, Array.toList_append, List.append_assoc]
  rw [← hend]
  rfl

/-- The document opens with the tag of its element; the class is left out if it is empty. -/
theorem openDocument_eq_opening (cssClass? : Option String) :
    ∃ class? : Option (List UInt8), (∀ value ∈ class?, Quotable value) ∧
      (openDocument cssClass?).toList = opening "pre" class? := by
  unfold openDocument
  split
  case h_1 cssClass _ =>
    refine ⟨some _, ?_, openTag_toList "pre" _⟩
    rintro value ⟨⟩
    exact escapeText_quotable _
  case h_2 => exact ⟨none, nofun, rfl⟩

def IsTag (tag : List UInt8) : Prop :=
  ∃ text, (∀ b ∈ text, isAngle b = false) ∧ tag = 0x3C :: text ++ [0x3E]

theorem opening_isTag {element : String} {class? : Option (List UInt8)}
    (helement : Quotable (markup element)) (hclass : ∀ value ∈ class?, Quotable value) :
    IsTag (opening element class?) := by
  have hless : markup "<" = [0x3C] := rfl
  have hgreater : markup ">" = [0x3E] := rfl
  cases class? with
  | none => exact ⟨markup element, helement.angleFree, by simp [opening, hless, hgreater]⟩
  | some value =>
    have hfront : ∀ b ∈ markup " class=\"", isAngle b = false := by
      simp [show markup " class=\"" = [0x20, 0x63, 0x6C, 0x61, 0x73, 0x73, 0x3D, 0x22] from rfl, isAngle]
    have hback : ∀ b ∈ markup "\"", isAngle b = false := by
      simp [show markup "\"" = [0x22] from rfl, isAngle]
    refine ⟨markup element ++ (markup " class=\"" ++ value ++ markup "\""), ?_,
      by simp [opening, hless, hgreater]⟩
    simp only [List.forall_mem_append]
    exact ⟨helement.angleFree, ⟨hfront, (hclass value rfl).angleFree⟩, hback⟩

theorem closing_isTag {element : String} (helement : Quotable (markup element)) :
    IsTag (closing element) := by
  have hless : markup "</" = [0x3C, 0x2F] := rfl
  have hgreater : markup ">" = [0x3E] := rfl
  refine ⟨0x2F :: markup element, ?_, by simp [closing, hless, hgreater]⟩
  exact List.forall_mem_cons.mpr ⟨by decide, helement.angleFree⟩

theorem openTag_isTag {element : String} {cssClass : Bytes} (helement : Quotable (markup element))
    (hclass : Quotable cssClass.toList) : IsTag (openTag element cssClass).toList := by
  rw [openTag_toList]
  refine opening_isTag helement ?_
  rintro value ⟨⟩
  exact hclass

theorem render_isTag (cssClass? : Option String) {call : Call} (hcall : call.isWrite = false) :
    render cssClass? call = #[] ∨ IsTag (render cssClass? call).toList := by
  have hspan : Quotable (markup "span") := by
    simp [show markup "span" = [0x73, 0x70, 0x61, 0x6E] from rfl, Quotable, isAngle]
  have hpre : Quotable (markup "pre") := by
    simp [show markup "pre" = [0x70, 0x72, 0x65] from rfl, Quotable, isAngle]
  cases call with
  | startDocument =>
    obtain ⟨class?, hclass, hopen⟩ := openDocument_eq_opening cssClass?
    refine .inr ?_
    rw [render, hopen]
    exact opening_isTag hpre hclass
  | endDocument => exact .inr (closing_isTag hpre)
  | startToken kind =>
    simp only [render]
    split
    case h_1 cssClass hclass => exact .inr (openTag_isTag hspan (spanClass_quotable hclass))
    case h_2 => exact .inl rfl
  | endToken kind =>
    simp only [render]
    split
    · exact .inr (closing_isTag hspan)
    · exact .inl rfl
  | write text => cases hcall
  | startLexing name => exact .inr (openTag_isTag hspan (escapeText_quotable _))
  | endLexing name => exact .inr (closing_isTag hspan)

theorem takeApart_render (cssClass? : Option String) (call : Call) (rest : List UInt8) :
    takeApart none ((render cssClass? call).toList ++ rest) =
      (takeApart none rest).map (fun parts =>
        ((tag? cssClass? call).toList ++ parts.1, (escapeText call.text).toList ++ parts.2)) := by
  cases hcall : call.isWrite with
  | true =>
    cases call with
    | write text => exact takeApart_text (escapeText_quotable text).angleFree rest
    | _ => cases hcall
  | false =>
    have hnoText : escapeText call.text = #[] := by
      rw [Call.text_of_not_write hcall]
      rfl
    rw [hnoText]
    rcases render_isTag cssClass? hcall with hnothing | ⟨text, hclean, hrender⟩
    · have hnoTag : tag? cssClass? call = none := if_pos (.inr hnothing)
      simp [hnoTag, hnothing]
    · have hsome : render cssClass? call ≠ #[] := by
        intro hempty
        simp [hempty] at hrender
      have htag : tag? cssClass? call = some (render cssClass? call).toList :=
        if_neg (by simp [hcall, hsome])
      rw [htag, hrender]
      simpa using takeApart_tag hclean rest

/-- What is rendered falls apart into the tags of the calls and their escaped texts. -/
theorem takeApart_calls (cssClass? : Option String) (calls : List Call) :
    takeApart none (calls.flatMap (fun call => (render cssClass? call).toList)) =
      some (calls.filterMap (tag? cssClass?),
        (calls.flatMap (fun call => call.text.toList)).flatMap (fun b => (escape b).toList)) := by
  induction calls with
  | nil => rfl
  | cons call calls ih =>
    rw [List.flatMap_cons, takeApart_render, ih, Option.map_some, List.flatMap_cons,
      List.flatMap_append, escapeText_toList]
    cases htag : tag? cssClass? call with
    | none => simp [htag]
    | some tag => simp [htag]

end Calls

section Nesting

theorem Content.append {first second : List UInt8} (hfirst : Content first)
    (hsecond : Content second) : Content (first ++ second) := by
  induction hfirst with
  | empty => exact hsecond
  | byte hb _ ih => exact .byte hb ih
  | span hvalue hinner _ _ ih =>
    rw [List.append_assoc]
    exact .span hvalue hinner ih

theorem Content.text {text : List UInt8} (htext : ∀ b ∈ text, isAngle b = false) :
    Content text := by
  induction text with
  | nil => exact .empty
  | cons b text ih =>
    obtain ⟨hb, htext⟩ := List.forall_mem_cons.mp htext
    exact .byte hb (ih htext)

theorem Content.element {inner : List UInt8} {cssClass : Bytes} (hclass : Quotable cssClass.toList)
    (hinner : Content inner) :
    Content ((openTag "span" cssClass).toList ++ inner ++ (Bytes.ofText "</span>").toList) := by
  have hclosing : (Bytes.ofText "</span>").toList = closing "span" := rfl
  have hspan := Content.span hclass hinner .empty
  rw [openTag_toList, hclosing]
  simpa using hspan

variable (cssClass? : Option String)

theorem Content.writes (texts : List Bytes) :
    Content ((texts.map .write).flatMap (fun call => (render cssClass? call).toList)) := by
  refine Content.text ?_
  intro b hb
  simp only [List.mem_flatMap, List.mem_map] at hb
  obtain ⟨_, ⟨text, -, rfl⟩, hb⟩ := hb
  exact (escapeText_quotable text b hb).1

/-- A run is one element if its kind has a class, and its bare text if not. -/
theorem Content.run (kind : TokenKind) (texts : List Bytes) :
    Content ((Call.run kind texts).flatMap (fun call => (render cssClass? call).toList)) := by
  have hwrites := Content.writes cssClass? texts
  simp only [Call.run, List.flatMap_cons, List.flatMap_append, List.flatMap_nil, List.append_nil]
  cases hclass : spanClass? kind with
  | none => simpa [render, hclass] using hwrites
  | some cssClass =>
    simpa [render, hclass] using Content.element (spanClass_quotable hclass) hwrites

theorem Content.body {depth : Nat} {last : Option TokenKind} {body : List Call}
    (h : Body depth last body) :
    Content (body.flatMap (fun call => (render cssClass? call).toList)) := by
  induction h with
  | empty => exact .empty
  | @run depth last before kind texts hbefore hkind htexts ih =>
    rw [List.flatMap_append]
    exact ih.append (Content.run cssClass? kind texts)
  | @delegate depth last final before inner name hbefore hinner ihbefore ihinner =>
    rw [List.flatMap_append]
    refine ihbefore.append ?_
    simpa [render] using Content.element (escapeText_quotable (Bytes.ofText name)) ihinner

theorem isPreElement_of_document {calls : List Call} (h : IsDocument calls) :
    IsPreElement (calls.flatMap (fun call => (render cssClass? call).toList)) := by
  obtain ⟨last, body, hbody, rfl⟩ := h
  obtain ⟨class?, hclass, hopen⟩ := openDocument_eq_opening cssClass?
  have hclose : (Bytes.ofText "</pre>").toList = closing "pre" := rfl
  refine ⟨class?, _, hclass, Content.body cssClass? hbody, ?_⟩
  simp [render, hopen, hclose]

end Nesting

end Highlighting.Html

namespace Highlighting

/-- The HTML output of a run that succeeds is one well-formed element and loses nothing: angle brackets
delimit the tags of the calls, in their order, and nothing else, and decoding what stands between the
tags gives the texts of the calls. -/
theorem html_output_well_formed (fuel : Nat) (catalog : Catalog) (host : Host)
    (config : EngineConfig) (source : Bytes) (lexers : List Lexer) (highlighted : Highlighted)
    (options : OptionSet Lexer) (output : Bytes)
    (hrun : highlight fuel catalog host config source lexers = some highlighted)
    (hrender : highlighted.render ⟨Html.format, options⟩ = .ok output) :
    ∃ calls text, highlighted.outcome = .ok calls ∧ Html.IsPreElement output.toList ∧
      Html.takeApart none output.toList =
        some (calls.toList.filterMap (Html.tag? (options.text? "cssclass")), text) ∧
      Html.decodeEntities text = (Call.written calls).toList := by
  obtain ⟨calls, hok, hdocument, houtput⟩ := render_eq_ok hrun hrender
  refine ⟨calls, _, hok, ?_, ?_, Html.decodeEntities_escapeText _⟩
  · rw [houtput]
    exact Html.isPreElement_of_document _ hdocument
  · rw [houtput, Call.written, Array.toList_flatMap]
    exact Html.takeApart_calls _ calls.toList

def Catalog.markedUp : Catalog where
  custom number :=
    { name := "<\"&\">"
      grammar :=
        { scan := fun _ _ cx =>
            if cx.atEnd then (.done, cx)
            else if number = 0 then
              (.delegate { mode := .full, target := .custom 1, fallback := .text }, cx)
            else (.token .keyword, cx.advanceToLimit) } }

def Html.markedUpOptions : OptionSet Lexer :=
  ⟨OptionSet.store "cssclass" (.ofDefault (.text "a\"><b"))
    (OptionSet.ofDeclarations Html.format.options).slots⟩

/-- Markup in the source, in the name of a language and in the class. -/
theorem html_output_well_formed_markup :
    ∃ highlighted output calls text,
      highlight 64 .markedUp (fun _ => none) {} (Bytes.ofText "</pre>&lt;")
        [Lexer.create .markedUp (.custom 0)] = some highlighted ∧
      highlighted.render ⟨Html.format, Html.markedUpOptions⟩ = .ok output ∧
      highlighted.outcome = .ok calls ∧
      output = Bytes.ofText "<pre class=\"a&quot;&gt;&lt;b\"><span class=\"&lt;&quot;&amp;&quot;&gt;\">" ++
        Bytes.ofText "<span class=\"k\">&lt;/pre&gt;&amp;lt;</span></span></pre>" ∧
      Html.IsPreElement output.toList ∧
      Html.takeApart none output.toList =
        some (calls.toList.filterMap (Html.tag? (some "a\"><b")), text) ∧
      Html.decodeEntities text = (Call.written calls).toList := by
  have hrendered : (highlight 64 .markedUp (fun _ => none) {} (Bytes.ofText "</pre>&lt;")
      [Lexer.create .markedUp (.custom 0)]).map
        (fun highlighted => (highlighted.render ⟨Html.format, Html.markedUpOptions⟩).toOption) =
      some (some (Bytes.ofText
        "<pre class=\"a&quot;&gt;&lt;b\"><span class=\"&lt;&quot;&amp;&quot;&gt;\">" ++
        Bytes.ofText "<span class=\"k\">&lt;/pre&gt;&amp;lt;</span></span></pre>")) := by
    decide +kernel
  obtain ⟨highlighted, hrun, hsome⟩ := Option.map_eq_some_iff.mp hrendered
  cases hrender : highlighted.render ⟨Html.format, Html.markedUpOptions⟩ with
  | error error =>
    rw [hrender] at hsome
    cases hsome
  | ok output =>
    rw [hrender] at hsome
    have houtput := Option.some.inj hsome
    obtain ⟨calls, text, hok, helement, hapart, hdecode⟩ :=
      html_output_well_formed 64 .markedUp (fun _ => none) {} _ _ highlighted Html.markedUpOptions _
        hrun hrender
    have hclass : Html.markedUpOptions.text? "cssclass" = some "a\"><b" := rfl
    rw [hclass] at hapart
    exact ⟨highlighted, output, calls, text, hrun, hrender, hok, houtput, helement, hapart,
      hdecode⟩

end Highlighting
