import Commentary.Proofs.ExactTypes
import Commentary.Proofs.TypePlaces

/-!
# Reported names

The canonical text of a well formed type is read back as the type exactly if the text groups what
the type groups and does not end in an open namespace (`reads_render_iff`).

An expression reports the canonical texts of its parts: the members of the union that it is read as,
or the one type. A reported name is read as the part whose text it is exactly if the part is
legible, and the text comes out of that reading again (`reads_reported_iff`). Not every part is
legible: a function type in a union loses the parentheses around it, and its result type then takes
in the members that follow (`lost_group_respelled`).
-/

namespace Commentary.TypeExpr

open Commentary.Text

/-! ## Texts that end in a colon -/

theorem getLast?_of_cons {c d : Char} {cs : List Char} (h : (c :: cs).getLast? = some d)
    (hne : c ≠ d) : cs.getLast? = some d := by
  rcases cs with _ | ⟨e, cs⟩
  · exact absurd (Option.some.inj h) hne
  · rwa [List.getLast?_cons_cons] at h

/-- A name does not reach to a colon with nothing behind it. -/
theorem takeName_of_getLast? {reversed cs : List Char} (h : cs.getLast? = some ':') :
    (takeName reversed cs).2.getLast? = some ':' := by
  fun_induction takeName reversed cs with
  | case1 => cases h
  | case2 => exact h
  | case3 reversed c rest hc ih =>
    refine ih ?_
    rcases rest with _ | ⟨d, rest⟩
    · obtain rfl : c = ':' := Option.some.inj h
      simp [atNamespaceColon, show isStructural ':' = true by decide] at hc
    · rwa [List.getLast?_cons_cons] at h

/-- The last token of a text that ends in a colon is a colon. -/
theorem getLast?_of_lexFrom {offset : Nat} {cs : List Char} {ts : List Lexeme}
    (h : lexFrom offset cs = .ok ts) (hlast : cs.getLast? = some ':') :
    (ts.map Lexeme.token).getLast? = some .colon := by
  have hcons : ∀ {token : Token} {more : List Lexeme},
      (more.map Lexeme.token).getLast? = some .colon →
        (token :: more.map Lexeme.token).getLast? = some .colon := by
    intro token more hmore
    rw [List.getLast?_cons, hmore, Option.getD_some]
  fun_induction lexFrom offset cs generalizing ts with
  | case1 => cases hlast
  | case2 offset rest ih =>
    obtain ⟨more, hmore, h⟩ := bind_eq_ok h
    cases h
    have hrest := getLast?_of_cons (getLast?_of_cons (getLast?_of_cons hlast (by decide))
      (by decide)) (by decide)
    exact hcons (ih hmore hrest)
  | case3 offset c rest hdots hblank ih =>
    refine ih h (getLast?_of_cons hlast ?_)
    rintro rfl
    revert hblank
    decide
  | case4 offset c rest hdots hblank hquote span after hsplit ih =>
    obtain ⟨more, hmore, h⟩ := bind_eq_ok h
    cases h
    have hne : c ≠ ':' := by
      rintro rfl
      cases hquote
    have hrest := getLast?_of_cons hlast hne
    refine hcons (ih hmore ?_)
    rw [← append_of_splitAfterMark hsplit, List.getLast?_append,
      Longname.getLast?_of_splitAfterMark hsplit] at hrest
    rcases hafter : after.getLast? with _ | d
    · rw [hafter] at hrest
      exact absurd (Option.some.inj hrest) hne
    · rwa [hafter] at hrest
  | case5 => cases h
  | case6 offset c rest hdots hblank hquote token htoken ih =>
    obtain ⟨more, hmore, h⟩ := bind_eq_ok h
    cases h
    rcases rest with _ | ⟨d, rest⟩
    · obtain rfl : c = ':' := Option.some.inj hlast
      rw [lexFrom] at hmore
      cases hmore
      cases htoken
      rfl
    · rw [List.getLast?_cons_cons] at hlast
      exact hcons (ih hmore hlast)
  | case7 offset c rest hdots hblank hquote hmark name =>
    rename_i ih
    obtain ⟨more, hmore, h⟩ := bind_eq_ok h
    cases h
    refine hcons (ih hmore (takeName_of_getLast? (getLast?_of_cons hlast ?_)))
    rintro rfl
    cases hmark

theorem getLast?_render_of_endsOpen : (node : Node) → node.EndsOpen →
    node.render.toList.getLast? = some ':'
  | .name text, h => by
    obtain ⟨word, -, htext⟩ := h
    rw [Node.render, htext, List.getLast?_concat]
  | .function receiver params (some type), h => by
    have hlast := getLast?_render_of_endsOpen type h
    rw [render_function, renderReturns, String.toList_append, List.getLast?_append,
      String.toList_append, List.getLast?_append, hlast]
    rfl
  | .modified inner m, h => by
    have hlast := getLast?_render_of_endsOpen inner h.2
    rw [Node.render, Modifiers.trailing, h.1, String.toList_append, String.toList_append,
      List.getLast?_append, List.getLast?_append, hlast]
    rfl

/-- What is read as a type does not end in a namespace with nothing behind its colon. -/
theorem not_endsOpen_of_reads {node : Node} (h : Reads node.render node) : ¬node.EndsOpen := by
  intro hopen
  obtain ⟨ts, hlex, hread⟩ := h
  have hcolon := getLast?_of_lexFrom hlex (getLast?_render_of_endsOpen node hopen)
  obtain ⟨front, last, rfl, hlast⟩ := (parses_inner hread).leaves
  rw [List.map_append, List.map_singleton, List.getLast?_concat] at hcolon
  exact hlast (Option.some.inj hcolon)

/-! ## Types that can be read back -/

/-- Whether the canonical text of a type says what the type is: it groups what the type groups, and
does not end in an open namespace. -/
def Node.IsLegible (node : Node) : Prop := node.All IsGroupedAt ∧ ¬node.EndsOpen

/-- The canonical text of a well formed type is read back as the type exactly if it is legible. -/
theorem reads_render_iff {node : Node} (hformed : node.All Node.IsFormedAt) :
    Reads node.render node ↔ node.IsLegible := by
  constructor
  · intro h
    have hopen := not_endsOpen_of_reads h
    have hlexes : Lexes node.render.toList node.tokens [] :=
      Node.lexes_render hformed (by rintro _ ⟨⟩) fun hends => absurd hends hopen
    obtain ⟨ts, hts, hlex⟩ := hlexes.lex_eq
    obtain ⟨ts', hlex', hread⟩ := h
    obtain rfl : ts = ts' := Except.ok.inj (hlex.symm.trans hlex')
    have hparse := parses_inner hread
    rw [← List.append_nil ts] at hparse
    have hends : EndsMember [] := by
      rintro _ ⟨⟩
    exact ⟨(hformed.isExact.here.type hts hends hparse).2.1, hopen⟩
  · rintro ⟨hgrouped, hopen⟩
    exact reads_render (hformed.and hgrouped) hopen

/-! ## Names -/

/-- The types whose texts a type reports: the members of a union, else the type itself. -/
def Node.parts : Node → List Node
  | .union members => members
  | node => [node]

theorem names_eq (node : Node) : node.names = node.parts.map Node.render := by
  cases node <;> rfl

/-- A type is one of those at the top of an expression, apart from the marks around them. -/
def IsPart (expression : String) (part : Node) : Prop :=
  ∃ ts node marks, lex expression = .ok ts ∧
    readAll expression.utf8ByteSize ts = .ok (node, marks) ∧ part ∈ node.parts

/-- The canonical text of the type that a text is read as, if it is read as one, all of it. -/
def respell? (text : String) : Option String :=
  match lex text with
  | .error _ => none
  | .ok ts =>
    match inner (atom text.utf8ByteSize ts.length) ts with
    | .ok (node, []) => some node.render
    | _ => none

theorem respell?_eq_some_iff {text text' : String} :
    respell? text = some text' ↔ ∃ node, Reads text node ∧ node.render = text' := by
  constructor
  · intro h
    rw [respell?] at h
    split at h
    next => cases h
    next ts hlex =>
      split at h
      next node hread => exact ⟨node, ⟨ts, hlex, hread⟩, Option.some.inj h⟩
      next => cases h
  · rintro ⟨node, ⟨ts, hlex, hread⟩, rfl⟩
    rw [respell?, hlex]
    dsimp only
    rw [hread]

/-- What a text is read as is well formed. -/
theorem Reads.isFormed {text : String} {node : Node} (h : Reads text node) :
    node.All Node.IsFormedAt := by
  obtain ⟨ts, hlex, hread⟩ := h
  exact (parses_inner hread).isFormed (isFormed_of_lex hlex)

/-- A text is its own canonical text exactly if it is the text of a legible type. -/
theorem respell?_eq_self_iff {text : String} : respell? text = some text ↔
    ∃ node : Node, node.All Node.IsFormedAt ∧ node.IsLegible ∧ node.render = text := by
  rw [respell?_eq_some_iff]
  constructor
  · rintro ⟨node, hreads, rfl⟩
    exact ⟨node, hreads.isFormed, (reads_render_iff hreads.isFormed).mp hreads, rfl⟩
  · rintro ⟨node, hformed, hlegible, rfl⟩
    exact ⟨node, (reads_render_iff hformed).mpr hlegible, rfl⟩

theorem Node.All.of_withModifiers {p : Node → Prop} {node : Node} {m : Modifiers}
    (h : (node.withModifiers m).All p) : node.All p := by
  rw [Node.withModifiers] at h
  split at h
  next => exact h
  next => exact h.inside node List.mem_cons_self

theorem Node.All.parts {p : Node → Prop} {node part : Node} (h : node.All p)
    (hpart : part ∈ node.parts) : part.All p := by
  cases node with
  | union members => exact h.inside part hpart
  | _ =>
    rw [List.mem_singleton.mp hpart]
    exact h

/-- What is read as a type and its marks is read as the type with its marks. -/
theorem inner_of_readAll {stop : Nat} {ts : List Lexeme} {node : Node} {marks : Modifiers}
    (h : readAll stop ts = .ok (node, marks)) :
    inner (atom stop ts.length) ts = .ok (node.withModifiers marks, []) := by
  obtain ⟨⟨⟨node', marks'⟩, rest⟩, hmodified, hrest⟩ := bind_eq_ok h
  rcases rest with _ | ⟨lexeme, rest⟩
  · cases hrest
    rw [inner, hmodified]
    rfl
  · cases hrest

/-- The parts of an expression are well formed. -/
theorem IsPart.isFormed {expression : String} {part : Node} (h : IsPart expression part) :
    part.All Node.IsFormedAt := by
  obtain ⟨ts, node, marks, hlex, hread, hpart⟩ := h
  have hformed := (parses_inner (inner_of_readAll hread)).isFormed (isFormed_of_lex hlex)
  exact hformed.of_withModifiers.parts hpart

/-- The names that an expression reports are the texts of its parts. -/
theorem exists_part {expression name : String} {summary : Summary}
    (h : parse expression = .ok summary) (hname : name ∈ summary.names) :
    ∃ part, IsPart expression part ∧ part.render = name := by
  obtain ⟨ts, hlex, h⟩ := bind_eq_ok h
  split at h
  next =>
    cases h
    cases hname
  next =>
    obtain ⟨⟨node, marks⟩, hread, h⟩ := bind_eq_ok h
    cases h
    rw [names_eq] at hname
    obtain ⟨part, hpart, hrender⟩ := List.mem_map.mp hname
    exact ⟨part, ⟨ts, node, marks, hlex, hread, hpart⟩, hrender⟩

/-- A name that an expression reports is the text of a part of the expression. It is read as that
part exactly if the part is legible, and as a type whose text it is exactly if some legible type has
that text. -/
theorem reads_reported_iff {expression name : String} {summary : Summary}
    (h : parse expression = .ok summary) (hname : name ∈ summary.names) :
    ∃ part, IsPart expression part ∧ part.render = name ∧ (Reads name part ↔ part.IsLegible) ∧
      (respell? name = some name ↔
        ∃ node : Node, node.All Node.IsFormedAt ∧ node.IsLegible ∧ node.render = name) := by
  obtain ⟨part, hpart, rfl⟩ := exists_part h hname
  exact ⟨part, hpart, rfl, reads_render_iff hpart.isFormed, respell?_eq_self_iff⟩

theorem reads_reported_constructor :
    parse "Array<string|!Foo>|function(new:Bar, ...): (number|null)" =
        .ok { names := ["Array.<(string|!Foo)>", "function(new:Bar, ...*): (number|null)"] } ∧
      respell? "function(new:Bar, ...*): (number|null)" =
        some "function(new:Bar, ...*): (number|null)" ∧
      ∃ part, IsPart "Array<string|!Foo>|function(new:Bar, ...): (number|null)" part ∧
        part.render = "function(new:Bar, ...*): (number|null)" ∧
        (Reads "function(new:Bar, ...*): (number|null)" part ↔ part.IsLegible) := by
  have hparse : parse "Array<string|!Foo>|function(new:Bar, ...): (number|null)" =
      .ok { names := ["Array.<(string|!Foo)>", "function(new:Bar, ...*): (number|null)"] } := by
    decide +kernel
  obtain ⟨part, hpart, hrender, hreads, -⟩ := reads_reported_iff hparse
    (List.mem_cons_of_mem _ List.mem_cons_self)
  exact ⟨hparse, by decide +kernel, part, hpart, hrender, hreads⟩

/-- The function is a member of the union, but in the reported name the union is its result type. -/
theorem lost_group_respelled :
    parse "Array.<(function(): string)|number>" =
        .ok { names := ["Array.<(function(): string|number)>"] } ∧
      respell? "Array.<(function(): string|number)>" =
        some "Array.<function(): (string|number)>" := by
  decide +kernel

/-- A reported name can be no type at all: a mark behind a member that is not the last one, a
namespace without a name, and a literal with type parameters. -/
example : parse "Array.<(a=)|b>|module:|'c'<d>" =
      .ok { names := ["Array.<(a=|b)>", "module:", "'c'.<d>"] } ∧
    ["Array.<(a=|b)>", "module:", "'c'.<d>"].map respell? = [none, none, none] := by
  decide +kernel

end Commentary.TypeExpr
