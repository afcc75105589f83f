import Commentary.Proofs.JsonValues
import Commentary.Render.Format
import Mathlib.Data.List.Nodup
import Mathlib.Data.Option.Basic

/-!
# Reading doclets back

The JSON document of some doclets, read as JSON and each item as a doclet, gives these doclets again
(`json_readBack`). Only the two switches that steer resolution are not written.

An object is told by its entries: what it says under each key, or that it says nothing there
(`Json.present`). What is said under a key is what reading finds (`get?_present`), so each field
comes down to a value that is written one way and read the other (`Json.Encodes`).

Reading is lenient: it takes the last of several members of one key, and null or a missing member as
saying nothing. What is written does not count on that. No key stands twice, nothing is null
(`Json.Plain`), and the fields without a default are always there (`Doclet.isWhole`).
-/

namespace Commentary

namespace Json

/-- A value without null, with natural numbers only, in which no object has a key twice. -/
inductive Plain : Json → Prop
  | bool (b : Bool) : Plain (.bool b)
  | nat (n : Nat) : Plain (.nat n)
  | string (s : String) : Plain (.string s)
  | array {items : List Json} (h : ∀ item ∈ items, Plain item) : Plain (.array items)
  | object {members : List (String × Json)} (hkeys : (members.map Prod.fst).Nodup)
    (h : ∀ m ∈ members, Plain m.2) : Plain (.object members)

theorem Plain.counts {v : Json} (h : v.Plain) : v.Counts := by
  induction h with
  | bool b => exact .bool b
  | nat n => exact .nat n
  | string s => exact .string s
  | array _ ih => exact .array ih
  | object _ _ ih => exact .object ih

theorem Plain.ne_null {v : Json} (h : v.Plain) : v ≠ .null := by
  rintro rfl
  cases h

/-! ## Entries -/

/-- What an object says under each key, or that it says nothing. -/
abbrev Entries := List (String × Option Json)

/-- The member of a key that says something. -/
def said (key : String) : Option Json → List (String × Json)
  | some v => [(key, v)]
  | none => []

/-- The members that say something. -/
def present (entries : Entries) : List (String × Json) :=
  entries.flatMap fun entry => said entry.1 entry.2

/-- A list says something unless it is empty. -/
def listEntry {α : Type} (encode : α → Json) : List α → Option Json
  | [] => none
  | xs => some (.array (xs.map encode))

/-- A flag says something if it is set. -/
def flagEntry (b : Bool) : Option Json := if b then some (.bool true) else none

/-- A text says something unless it is empty. -/
def textEntry (s : String) : Option Json := if s.isEmpty then none else some (.string s)

section Entries

variable {α : Type}

theorem present_nil : present [] = [] := rfl

theorem present_cons (key : String) (o : Option Json) (entries : Entries) :
    present ((key, o) :: entries) = said key o ++ present entries := rfl

theorem said_some (key : String) (v : Json) : said key (some v) = [(key, v)] := rfl

theorem said_textEntry (key s : String) :
    said key (textEntry s) = if s.isEmpty then [] else [(key, .string s)] := by
  unfold textEntry
  split <;> rfl

theorem member?_eq (key : String) (encode : α → Json) (o : Option α) :
    member? key encode o = said key (o.map encode) := by
  cases o <;> rfl

theorem memberList_eq (key : String) (encode : α → Json) (xs : List α) :
    memberList key encode xs = said key (listEntry encode xs) := by
  cases xs <;> rfl

theorem memberFlag_eq (key : String) (b : Bool) :
    memberFlag key b = said key (flagEntry b) := by
  cases b <;> rfl

theorem mem_said {key : String} {o : Option Json} {m : String × Json} :
    m ∈ said key o ↔ m.1 = key ∧ o = some m.2 := by
  cases o with
  | none => simp [said]
  | some v => simp [said, Prod.ext_iff, eq_comm]

variable {entries : Entries}

theorem mem_present {m : String × Json} : m ∈ present entries ↔ (m.1, some m.2) ∈ entries := by
  simp only [present, List.mem_flatMap, mem_said]
  constructor
  · rintro ⟨⟨key, o⟩, hentry, rfl, rfl⟩
    exact hentry
  · intro hentry
    exact ⟨_, hentry, rfl, rfl⟩

theorem nodup_keys_present (hkeys : (entries.map Prod.fst).Nodup) :
    ((present entries).map Prod.fst).Nodup := by
  refine hkeys.sublist ?_
  clear hkeys
  induction entries with
  | nil => exact List.Sublist.refl _
  | cons entry entries ih =>
    obtain ⟨key, o⟩ := entry
    cases o with
    | none => exact ih.cons _
    | some v => exact ih.cons_cons _

/-- Under each key is found what the object says there. -/
theorem get?_present (hkeys : (entries.map Prod.fst).Nodup) :
    ∀ entry ∈ entries, (Json.object (present entries)).get? entry.1 = entry.2 := by
  rintro ⟨key, o⟩ hentry
  have hunique : ∀ v, (key, some v) ∈ entries → o = some v := by
    intro v hv
    have heq : (key, o) = (key, some v) :=
      List.inj_on_of_nodup_map hkeys hentry hv rfl
    exact (Prod.mk.inj heq).2
  have hget : (Json.object (present entries)).get? key =
      ((present entries).reverse.find? (·.1 == key)).map Prod.snd := rfl
  rw [hget]
  rcases hfind : (present entries).reverse.find? (·.1 == key) with _ | ⟨key', v⟩
  · rw [hfind, Option.map_none]
    rw [List.find?_eq_none] at hfind
    cases o with
    | none => rfl
    | some v =>
      have hmem : (key, v) ∈ (present entries).reverse :=
        List.mem_reverse.2 (mem_present.2 hentry)
      exact absurd (beq_self_eq_true key) (hfind _ hmem)
  · have hkey : key' = key := by simpa using List.find?_some hfind
    have hmem := mem_present.1 (List.mem_reverse.1 (List.mem_of_find?_eq_some hfind))
    rw [hfind]
    subst hkey
    exact (hunique v hmem).symm

end Entries

/-! ## Fields -/

/-- What is written one way is plain and is read the other way. -/
structure Encodes {α : Type} (encode : α → Json) (decode : Json → Option α) : Prop where
  read : ∀ x, decode (encode x) = some x
  plain : ∀ x, (encode x).Plain

/-- Every value that an entry says is plain. -/
def PlainEntry (o : Option Json) : Prop := ∀ v ∈ o, v.Plain

/-- Reads what was found under a key. -/
def reading {α : Type} (decode : Json → Option α) : Option Json → Option (Option α)
  | none | some .null => some none
  | some found => (decode found).map some

theorem optional?_eq {α : Type} (decode : Json → Option α) (key : String) (j : Json) :
    j.optional? decode key = reading decode (j.get? key) := rfl

theorem mapM_map {α β : Type} {encode : α → Json} {decode : Json → Option β} {f : α → β}
    (h : ∀ x, decode (encode x) = some (f x)) (xs : List α) :
    (xs.map encode).mapM decode = some (xs.map f) := by
  induction xs with
  | nil => rfl
  | cons x xs ih => simp [List.mapM_cons, h, ih]

theorem plainEntry_some {v : Json} : PlainEntry (some v) ↔ v.Plain := by
  simp [PlainEntry]

theorem plainEntry_flag (b : Bool) : PlainEntry (flagEntry b) := by
  cases b with
  | false => nofun
  | true => exact plainEntry_some.2 (.bool true)

theorem plainEntry_text (s : String) : PlainEntry (textEntry s) := by
  unfold textEntry
  split
  · nofun
  · exact plainEntry_some.2 (.string s)

theorem reading_flag (b : Bool) : (reading asBool? (flagEntry b)).map (·.getD false) = some b := by
  cases b <;> rfl

theorem reading_text (s : String) : (reading asString? (textEntry s)).map (·.getD "") = some s := by
  unfold textEntry
  split
  · rename_i hempty
    rw [String.isEmpty_iff.1 hempty]
    rfl
  · rfl

namespace Encodes

variable {α : Type} {encode : α → Json} {decode : Json → Option α} (h : Encodes encode decode)
include h

theorem reading_some (x : α) : reading decode (some (encode x)) = some (some x) := by
  have hread := h.read x
  have hnull := (h.plain x).ne_null
  unfold reading
  split
  · rename_i heq
    cases heq
  · rename_i heq
    exact absurd (Option.some.inj heq) hnull
  · rename_i heq
    cases heq
    rw [hread, Option.map_some]

theorem reading_map (o : Option α) : reading decode (o.map encode) = some o := by
  cases o with
  | none => rfl
  | some x => exact h.reading_some x

theorem reading_list (xs : List α) :
    (reading (asArray? decode) (listEntry encode xs)).map (·.getD []) = some xs := by
  cases xs with
  | nil => rfl
  | cons x xs =>
    have hread : ((x :: xs).map encode).mapM decode = some ((x :: xs).map fun x => x) :=
      mapM_map h.read (x :: xs)
    rw [List.map_id'] at hread
    simp only [listEntry, reading, asArray?, hread, Option.map_some, Option.getD_some]

theorem plainEntry_map (o : Option α) : PlainEntry (o.map encode) := by
  intro v hv
  obtain ⟨x, -, rfl⟩ := Option.map_eq_some_iff.1 hv
  exact h.plain x

theorem plain_array (xs : List α) : (Json.array (xs.map encode)).Plain := by
  refine .array fun item hitem => ?_
  obtain ⟨x, -, rfl⟩ := List.mem_map.1 hitem
  exact h.plain x

theorem plainEntry_list (xs : List α) : PlainEntry (listEntry encode xs) := by
  cases xs with
  | nil => nofun
  | cons x xs => exact plainEntry_some.2 (h.plain_array (x :: xs))

end Encodes

theorem encodes_string : Encodes .string asString? := ⟨fun _ => rfl, .string⟩

theorem encodes_bool : Encodes .bool asBool? := ⟨fun _ => rfl, .bool⟩

theorem encodes_nat : Encodes nat asNat? where
  plain := .nat
  read := by
    intro n
    have hdigits : (toString n).toList = Nat.toDigits 10 n := Nat.toList_repr
    have hall : (Nat.toDigits 10 n).all Char.isDigit = true := by
      rw [List.all_eq_true]
      intro c hc
      exact Nat.isDigit_of_mem_toDigits (b := 10) (n := n) (by omega) (by omega) hc
    have hvalue : (Nat.toDigits 10 n).foldl (fun n c => n * 10 + (c.toNat - 48)) 0 = n := by
      have hdecimal := Nat.ofDigitChars_ten_toDigits (n := n)
      simp only [Nat.ofDigitChars, Nat.mul_comm 10] at hdecimal
      exact hdecimal
    rw [nat, asNat?, hdigits, natOfDigits?, hall, hvalue]
    simp [Nat.toDigits_ne_nil]

/-- Values are written as objects with some plain entries, of which no two have one key. -/
structure Layout {α : Type} (encode : α → Json) (entries : α → Entries) : Prop where
  eq : ∀ x, encode x = .object (present (entries x))
  keys_nodup : ∀ x, ((entries x).map Prod.fst).Nodup
  plainEntry : ∀ x, ∀ entry ∈ entries x, PlainEntry entry.2

namespace Layout

variable {α : Type} {encode : α → Json} {entries : α → Entries} (h : Layout encode entries)
include h

theorem get? (x : α) : ∀ entry ∈ entries x, (encode x).get? entry.1 = entry.2 := by
  rw [h.eq]
  exact get?_present (h.keys_nodup x)

theorem isObject (x : α) : (encode x).isObject = true := by
  rw [h.eq]
  rfl

theorem plain (x : α) : (encode x).Plain := by
  rw [h.eq]
  exact .object (nodup_keys_present (h.keys_nodup x)) fun m hm =>
    h.plainEntry x _ (mem_present.1 hm) m.2 rfl

end Layout

end Json

open Json

/-! ## Parts of doclets -/

/-- What is written of a code hint. -/
def CodeHint.entries (code : CodeHint) : Entries :=
  [("name", code.name.map .string), ("type", code.form.map .string),
    ("value", code.value.map .string), ("funcscope", code.enclosing.map .string),
    ("receiver", code.receiver.map .string), ("paramnames", listEntry .string code.paramNames)]

theorem layout_codeHint : Layout CodeHint.toJson CodeHint.entries where
  eq code := by
    simp only [CodeHint.toJson, CodeHint.entries, member?_eq, memberList_eq, present_cons,
      present_nil, List.append_assoc, List.append_nil]
  keys_nodup _ := (by decide : (({} : CodeHint).entries.map Prod.fst).Nodup)
  plainEntry code := by
    simp [CodeHint.entries, encodes_string.plainEntry_map, encodes_string.plainEntry_list]

theorem encodes_codeHint : Encodes CodeHint.toJson CodeHint.ofJson? where
  plain := layout_codeHint.plain
  read code := by
    have hget := layout_codeHint.get? code
    simp only [CodeHint.entries, List.forall_mem_cons] at hget
    simp [CodeHint.ofJson?, layout_codeHint.isObject, list?, withDefault?, optional?_eq, hget,
      encodes_string.reading_map, encodes_string.reading_list]

/-- What is written of an origin. -/
def Origin.entries (origin : Origin) : Entries :=
  [("filename", origin.filename.map .string), ("path", origin.path.map .string),
    ("lineno", origin.line.map Json.nat), ("code", some origin.code.toJson)]

theorem layout_origin : Layout Origin.toJson Origin.entries where
  eq origin := by
    simp only [Origin.toJson, Origin.entries, member?_eq, present_cons, said_some, present_nil,
      List.append_assoc, List.append_nil]
  keys_nodup _ := (by decide : (({} : Origin).entries.map Prod.fst).Nodup)
  plainEntry origin := by
    simp [Origin.entries, encodes_string.plainEntry_map, encodes_nat.plainEntry_map,
      plainEntry_some, encodes_codeHint.plain]

theorem encodes_origin : Encodes Origin.toJson Origin.ofJson? where
  plain := layout_origin.plain
  read origin := by
    have hget := layout_origin.get? origin
    simp only [Origin.entries, List.forall_mem_cons] at hget
    simp [Origin.ofJson?, layout_origin.isObject, withDefault?, optional?_eq, hget,
      encodes_string.reading_map, encodes_nat.reading_map, encodes_codeHint.reading_some]

theorem layout_types : Layout typesToJson fun names => [("names", some (Json.strings names))] where
  eq _ := rfl
  keys_nodup _ := by simp
  plainEntry names := by
    have hplain := encodes_string.plain_array names
    simpa [plainEntry_some, Json.strings] using hplain

theorem encodes_types : Encodes typesToJson typesOfJson? where
  plain := layout_types.plain
  read names := by
    have hget := layout_types.get? names
    simp only [List.forall_mem_cons] at hget
    have hread := mapM_map encodes_string.read names
    rw [List.map_id'] at hread
    simp [typesOfJson?, layout_types.isObject, list?, withDefault?, optional?_eq, hget, reading,
      asArray?, Json.strings, hread]

/-- What is written of a detail. -/
def Detail.entries (d : Detail) : Entries :=
  [("type", d.types.map typesToJson), ("name", d.name.map .string),
    ("description", d.description.map .string), ("optional", d.optional.map .bool),
    ("nullable", d.nullable.map .bool), ("variable", d.repeatable.map .bool),
    ("defaultvalue", d.defaultValue.map .string)]

theorem layout_detail : Layout Detail.toJson Detail.entries where
  eq d := by
    simp only [Detail.toJson, Detail.entries, member?_eq, present_cons, present_nil,
      List.append_assoc, List.append_nil]
  keys_nodup _ := (by decide : (({} : Detail).entries.map Prod.fst).Nodup)
  plainEntry d := by
    simp [Detail.entries, encodes_string.plainEntry_map, encodes_bool.plainEntry_map,
      encodes_types.plainEntry_map]

theorem encodes_detail : Encodes Detail.toJson Detail.ofJson? where
  plain := layout_detail.plain
  read d := by
    have hget := layout_detail.get? d
    simp only [Detail.entries, List.forall_mem_cons] at hget
    simp [Detail.ofJson?, layout_detail.isObject, optional?_eq, hget, encodes_string.reading_map,
      encodes_bool.reading_map, encodes_types.reading_map]

/-- A text is written as a string and read as a text; a detail is an object. -/
theorem encodes_tagValue : Encodes TagValue.toJson TagValue.ofJson? where
  plain value := by
    cases value with
    | text s => exact .string s
    | detail d => exact encodes_detail.plain d
  read value := by
    cases value with
    | text s => rfl
    | detail d =>
      have hread := encodes_detail.read d
      rw [TagValue.toJson]
      rw [layout_detail.eq] at hread ⊢
      rw [TagValue.ofJson?, hread, Option.map_some]
      nofun

/-- What is written of a kept tag. -/
def KeptTag.entries (tag : KeptTag) : Entries :=
  [("originalTitle", some (.string tag.writtenTitle)), ("title", some (.string tag.title)),
    ("text", textEntry tag.text), ("value", tag.value.map TagValue.toJson)]

theorem layout_keptTag : Layout KeptTag.toJson KeptTag.entries where
  eq tag := by
    simp only [KeptTag.toJson, KeptTag.entries, member?_eq, present_cons, said_some,
      said_textEntry, present_nil, List.append_nil, List.cons_append, List.nil_append]
  keys_nodup _ := (by decide : (({ writtenTitle := "", title := "" } : KeptTag).entries.map
    Prod.fst).Nodup)
  plainEntry tag := by
    simp [KeptTag.entries, plainEntry_some, encodes_string.plain, plainEntry_text,
      encodes_tagValue.plainEntry_map]

theorem encodes_keptTag : Encodes KeptTag.toJson KeptTag.ofJson? where
  plain := layout_keptTag.plain
  read tag := by
    have hget := layout_keptTag.get? tag
    simp only [KeptTag.entries, List.forall_mem_cons] at hget
    simp [KeptTag.ofJson?, layout_keptTag.isObject, text?, withDefault?, optional?_eq, hget,
      encodes_string.reading_some, reading_text, encodes_tagValue.reading_map]

/-- What is written of a borrow. -/
def Borrow.entries (borrow : Borrow) : Entries :=
  [("from", some (.string borrow.source)), ("as", borrow.target.map .string)]

theorem layout_borrow : Layout Borrow.toJson Borrow.entries where
  eq borrow := by
    simp only [Borrow.toJson, Borrow.entries, member?_eq, present_cons, said_some, present_nil,
      List.append_nil]
  keys_nodup _ := (by decide : (({ source := "" } : Borrow).entries.map Prod.fst).Nodup)
  plainEntry borrow := by
    simp [Borrow.entries, plainEntry_some, encodes_string.plain, encodes_string.plainEntry_map]

theorem encodes_borrow : Encodes Borrow.toJson Borrow.ofJson? where
  plain := layout_borrow.plain
  read borrow := by
    have hget := layout_borrow.get? borrow
    simp only [Borrow.entries, List.forall_mem_cons] at hget
    simp [Borrow.ofJson?, layout_borrow.isObject, text?, withDefault?, optional?_eq, hget,
      encodes_string.reading_some, encodes_string.reading_map]

theorem encodes_scope : Encodes (fun scope : Scope => .string scope.text)
    fun j => (asString? j).bind Scope.ofText? where
  read scope := by cases scope <;> rfl
  plain scope := .string scope.text

theorem encodes_kind : Encodes (fun kind : Kind => .string kind.text)
    fun j => (asString? j).bind Kind.ofText? where
  read := Kind.ofText?_text
  plain kind := .string kind.text

theorem encodes_access : Encodes (fun access : Access => .string access.text)
    fun j => (asString? j).bind Access.ofLower? where
  read := Access.ofLower?_text
  plain access := .string access.text

/-! ## Nothing is missing -/

/-- Whether an object has a member of each of some keys. -/
def Json.hasAll (keys : List String) (j : Json) : Bool := keys.all fun key => (j.get? key).isSome

/-- Whether all items of a list pass a check, if there is a list. -/
def Json.eachItem (check : Json → Bool) : Option Json → Bool
  | some (.array items) => items.all check
  | _ => true

/-- Whether a detail has what has no default: the names, if there are types. -/
def Detail.isWhole (j : Json) : Bool := (j.get? "type").all (hasAll ["names"])

/-- Whether a kept tag has what has no default: its titles, and what its value needs. -/
def KeptTag.isWhole (j : Json) : Bool :=
  j.hasAll ["originalTitle", "title"] && (j.get? "value").all Detail.isWhole

/-- Whether a borrow has what has no default: its source. -/
def Borrow.isWhole (j : Json) : Bool := j.hasAll ["from"]

/-- Whether a doclet has what has no default: comment, origin, name and longname, and what its parts
need. -/
def Doclet.isWhole (j : Json) : Bool :=
  j.hasAll ["comment", "meta", "name", "longname"] && (j.get? "type").all (hasAll ["names"]) &&
    (["params", "returns", "exceptions", "properties"].all fun key =>
      eachItem Detail.isWhole (j.get? key)) &&
    eachItem Borrow.isWhole (j.get? "borrows") && eachItem KeptTag.isWhole (j.get? "tags")

namespace Json

section Whole

variable {α : Type} {encode : α → Json} {check : Json → Bool}

theorem all_map_of (h : ∀ x, check (encode x) = true) (o : Option α) :
    (o.map encode).all check = true := by
  cases o with
  | none => rfl
  | some x => exact h x

theorem eachItem_listEntry (h : ∀ x, check (encode x) = true) (xs : List α) :
    eachItem check (listEntry encode xs) = true := by
  cases xs with
  | nil => rfl
  | cons x xs => simp [listEntry, eachItem, h]

end Whole

end Json

theorem hasAll_typesToJson (names : List String) : (typesToJson names).hasAll ["names"] = true :=
  rfl

theorem isWhole_detail (d : Detail) : Detail.isWhole d.toJson = true := by
  have hget := layout_detail.get? d
  simp only [Detail.entries, List.forall_mem_cons] at hget
  simp only [Detail.isWhole, hget, all_map_of hasAll_typesToJson]

theorem isWhole_keptTag (tag : KeptTag) : KeptTag.isWhole tag.toJson = true := by
  have hvalue : ∀ value : TagValue, Detail.isWhole value.toJson = true := by
    intro value
    cases value with
    | text s => rfl
    | detail d => exact isWhole_detail d
  have hget := layout_keptTag.get? tag
  simp only [KeptTag.entries, List.forall_mem_cons] at hget
  simp [KeptTag.isWhole, hasAll, hget, all_map_of hvalue]

theorem isWhole_borrow (borrow : Borrow) : Borrow.isWhole borrow.toJson = true := by
  have hget := layout_borrow.get? borrow
  simp only [Borrow.entries, List.forall_mem_cons] at hget
  simp [Borrow.isWhole, hasAll, hget]

/-! ## Doclets -/

namespace Doclet

/-- What is written of a doclet. -/
def entries (d : Doclet) : Entries :=
  [("comment", some (.string d.comment)), ("meta", some d.origin.toJson),
    ("name", some (.string d.name)), ("longname", some (.string d.longname)),
    ("memberof", d.memberof.map .string), ("scope", d.scope.map (.string ·.text)),
    ("kind", d.kind.map (.string ·.text)), ("variation", d.variation.map .string),
    ("alias", d.aliasName.map .string), ("description", d.description.map .string),
    ("summary", d.summary.map .string), ("classdesc", d.classdesc.map .string),
    ("type", d.types.map typesToJson), ("optional", d.optional.map .bool),
    ("nullable", d.nullable.map .bool), ("variable", d.repeatable.map .bool),
    ("defaultvalue", d.defaultValue.map .string), ("params", listEntry Detail.toJson d.params),
    ("returns", listEntry Detail.toJson d.returns),
    ("exceptions", listEntry Detail.toJson d.exceptions),
    ("properties", listEntry Detail.toJson d.properties),
    ("examples", listEntry .string d.examples), ("see", listEntry .string d.see),
    ("todo", listEntry .string d.todo), ("author", listEntry .string d.author),
    ("requires", listEntry .string d.requires), ("fires", listEntry .string d.fires),
    ("listens", listEntry .string d.listens), ("tutorials", listEntry .string d.tutorials),
    ("augments", listEntry .string d.augments), ("mixes", listEntry .string d.mixes),
    ("implements", listEntry .string d.implements),
    ("borrows", listEntry Borrow.toJson d.borrows), ("access", d.access.map (.string ·.text)),
    ("virtual", flagEntry d.isVirtual), ("readonly", flagEntry d.readonly),
    ("ignore", flagEntry d.ignore), ("undocumented", flagEntry d.undocumented),
    ("inheritdoc", flagEntry d.inheritdoc), ("override", flagEntry d.isOverride),
    ("isEnum", flagEntry d.isEnum), ("deprecated", d.deprecated.map .string),
    ("since", d.since.map .string), ("version", d.version.map .string),
    ("license", d.license.map .string), ("copyright", d.copyright.map .string),
    ("this", d.thisType.map .string), ("inherited", flagEntry d.inherited),
    ("inherits", d.inherits.map .string), ("overrides", d.overrides.map .string),
    ("mixed", flagEntry d.mixed), ("borrowed", flagEntry d.borrowed),
    ("tags", listEntry KeptTag.toJson d.tags)]

theorem layout : Layout toJson entries where
  eq d := by
    unfold toJson members entries
    simp only [member?_eq, memberList_eq, memberFlag_eq, present_cons, said_some, present_nil,
      List.append_assoc, List.append_nil, List.cons_append, List.nil_append]
  keys_nodup d := by
    simp only [entries, List.map_cons, List.map_nil]
    decide +kernel
  plainEntry d := by
    simp [entries, plainEntry_some, plainEntry_flag, encodes_string.plain, encodes_origin.plain,
      encodes_string.plainEntry_map, encodes_scope.plainEntry_map, encodes_kind.plainEntry_map,
      encodes_access.plainEntry_map, encodes_types.plainEntry_map, encodes_bool.plainEntry_map,
      encodes_string.plainEntry_list, encodes_detail.plainEntry_list,
      encodes_borrow.plainEntry_list, encodes_keptTag.plainEntry_list]

/-- The doclet without the two switches that only steer resolution. -/
def withoutSwitches (d : Doclet) : Doclet :=
  { d with forceMemberof := false, preserveName := false }

/-- A doclet that was written is read again, but for the switches. -/
theorem ofJson?_toJson (d : Doclet) : ofJson? d.toJson = some d.withoutSwitches := by
  have hget := layout.get? d
  simp only [entries, List.forall_mem_cons] at hget
  simp only [ofJson?, layout.isObject, text?, flag?, list?, withDefault?, optional?_eq, hget,
    guard_true, encodes_string.reading_some, encodes_origin.reading_some,
    encodes_string.reading_map, encodes_scope.reading_map, encodes_kind.reading_map,
    encodes_access.reading_map, encodes_types.reading_map, encodes_bool.reading_map,
    encodes_string.reading_list, encodes_detail.reading_list, encodes_borrow.reading_list,
    encodes_keptTag.reading_list, reading_flag, Option.map_some, Option.getD_some,
    Option.bind_eq_bind, Option.bind_some, Option.pure_def]
  rfl

theorem isWhole_toJson (d : Doclet) : isWhole d.toJson = true := by
  have hget := layout.get? d
  simp only [entries, List.forall_mem_cons] at hget
  simp [isWhole, hasAll, hget, all_map_of hasAll_typesToJson, eachItem_listEntry isWhole_detail,
    eachItem_listEntry isWhole_borrow, eachItem_listEntry isWhole_keptTag]

end Doclet

/-- The JSON document of some doclets is read as an array, in which no key stands twice, nothing is
null and no field without a default is missing. Its items are read as the doclets, in their order,
with nothing lost but the two switches that only steer resolution. -/
theorem json_readBack (doclets : List Doclet) :
    ∃ items, Json.parse? (Render.json doclets) = some (.array items) ∧
      (∀ item ∈ items, item.Plain ∧ Doclet.isWhole item = true) ∧
      items.mapM Doclet.ofJson? = some (doclets.map Doclet.withoutSwitches) := by
  have hplain : ∀ item ∈ doclets.map Doclet.toJson, item.Plain ∧ Doclet.isWhole item = true := by
    intro item hitem
    obtain ⟨d, -, rfl⟩ := List.mem_map.1 hitem
    exact ⟨Doclet.layout.plain d, d.isWhole_toJson⟩
  refine ⟨doclets.map Doclet.toJson, ?_, hplain, mapM_map Doclet.ofJson?_toJson doclets⟩
  have hcounts := (Plain.array fun item hitem => (hplain item hitem).1).counts
  have hline : ∀ c ∈ "\n".toList, Json.isSpace c = true := by simp [Json.isSpace]
  exact hcounts.parse?_pretty hline

end Commentary
