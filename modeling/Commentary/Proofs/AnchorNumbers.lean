import Commentary.Render.Anchor
import Mathlib

/-!
# Numbers behind anchors

A heading gets the anchor of its text, with the number of times behind it that this anchor has come
before (`nextAll_eq`). Texts that differ never get the same numbered anchor, since a number has no
hyphen in it (`numbered_inj`). But the anchor of a text can be what another one is with a number
behind it, and nothing keeps the two apart. This is the only way in which an anchor is given out
twice (`nextAll_nodup_iff`).
-/

namespace Commentary.Render

/-! ## Numbered anchors -/

/-- An anchor that has been given out `count` times before. -/
def numbered (base : String) (count : Nat) : String :=
  if count = 0 then base else base ++ "-" ++ toString count

theorem numbered_zero (base : String) : numbered base 0 = base := if_pos rfl

theorem numbered_of_pos (base : String) {count : Nat} (h : 0 < count) :
    numbered base count = base ++ "-" ++ toString count := if_neg (Nat.ne_of_gt h)

/-- A number has no hyphen in it. -/
theorem hyphen_notMem_toString (n : Nat) : '-' ∉ (toString n).toList := by
  intro hmem
  rw [show toString n = n.repr from rfl, Nat.toList_repr] at hmem
  have hdigit := Nat.isDigit_of_mem_toDigits (by decide) (by decide) hmem
  revert hdigit
  decide

/-- What stands in front of the first mark `c` and what follows it are told apart. -/
theorem eq_of_append_cons {c : Char} {front front' back back' : List Char} (h : c ∉ front)
    (h' : c ∉ front') (heq : front ++ c :: back = front' ++ c :: back') :
    front = front' ∧ back = back' := by
  have htake : ∀ {cs : List Char} (rest : List Char), c ∉ cs →
      (cs ++ c :: rest).takeWhile (· != c) = cs := by
    intro cs rest hcs
    have hkept : ∀ d ∈ cs, (d != c) = true := by
      intro d hd
      rw [bne_iff_ne]
      rintro rfl
      exact hcs hd
    rw [List.takeWhile_append_of_pos hkept]
    simp
  have hfront : front = front' := by rw [← htake back h, heq, htake back' h']
  subst hfront
  exact ⟨rfl, List.cons_inj_right c |>.1 (List.append_cancel_left heq)⟩

/-- A text in front of a hyphen is told apart from one without hyphens behind it. -/
theorem eq_of_append_hyphen {base base' rest rest' : String} (hrest : '-' ∉ rest.toList)
    (hrest' : '-' ∉ rest'.toList) (h : base ++ "-" ++ rest = base' ++ "-" ++ rest') :
    base = base' ∧ rest = rest' := by
  have hlist : ∀ front back : String, (front ++ "-" ++ back).toList.reverse =
      back.toList.reverse ++ '-' :: front.toList.reverse := by
    simp
  have hreverse := congrArg (fun s => s.toList.reverse) h
  simp only [hlist] at hreverse
  obtain ⟨hback, hfront⟩ := eq_of_append_cons (by simpa) (by simpa) hreverse
  exact ⟨String.toList_inj.1 (List.reverse_injective hfront),
    String.toList_inj.1 (List.reverse_injective hback)⟩

/-- Anchors with numbers behind them are the same only if text and number are. -/
theorem numbered_inj {base base' : String} {count count' : Nat} (hcount : 0 < count)
    (hcount' : 0 < count') (h : numbered base count = numbered base' count') :
    base = base' ∧ count = count' := by
  rw [numbered_of_pos base hcount, numbered_of_pos base' hcount'] at h
  obtain ⟨hbase, hnumber⟩ :=
    eq_of_append_hyphen (hyphen_notMem_toString count) (hyphen_notMem_toString count') h
  exact ⟨hbase, Nat.repr_inj.1 hnumber⟩

/-! ## Turns -/

/-- Each anchor of a list with the number of times that it has come before, in `past` or in the
list. -/
def turns (past : List String) : List String → List (String × Nat)
  | [] => []
  | base :: rest => (base, past.count base) :: turns (base :: past) rest

/-- An anchor has as many turns as it comes in the list, counted on from those in the past. -/
theorem mem_turns {past bases : List String} {base : String} {count : Nat} :
    (base, count) ∈ turns past bases ↔
      past.count base ≤ count ∧ count < past.count base + bases.count base := by
  induction bases generalizing past with
  | nil =>
    simp only [turns, List.not_mem_nil, List.count_nil, Nat.add_zero, false_iff]
    omega
  | cons first rest ih =>
    rw [turns, List.mem_cons, ih, Prod.mk.injEq]
    by_cases hfirst : first = base
    · subst hfirst
      simp only [List.count_cons_self, true_and]
      omega
    · simp only [List.count_cons_of_ne hfirst, Ne.symm hfirst, false_and, false_or]

/-- No turn comes twice. -/
theorem nodup_turns (past bases : List String) : (turns past bases).Nodup := by
  induction bases generalizing past with
  | nil => exact List.nodup_nil
  | cons first rest ih =>
    refine List.nodup_cons.2 ⟨fun hmem => ?_, ih (first :: past)⟩
    have hle := (mem_turns.1 hmem).1
    rw [List.count_cons_self] at hle
    omega

/-! ## Giving out -/

/-- For each anchor it is known how often it has come. -/
def Anchors.Tallies (anchors : Anchors) (past : List String) : Prop :=
  ∀ base, (anchors.given.find? base).getD 0 = past.count base

theorem Anchors.Tallies.empty : ({} : Anchors).Tallies [] := fun _ => rfl

theorem Anchors.Tallies.next {anchors : Anchors} {past : List String} (h : anchors.Tallies past)
    (heading : String) : anchors.next heading =
      (numbered (anchorBase heading) (past.count (anchorBase heading)),
        (anchors.next heading).2) ∧
      (anchors.next heading).2.Tallies (anchorBase heading :: past) := by
  refine ⟨?_, fun base => ?_⟩
  · rw [← h (anchorBase heading)]
    rfl
  · simp only [Anchors.next, Table.find?_insert]
    by_cases hbase : anchorBase heading = base
    · subst hbase
      rw [if_pos rfl, Option.getD_some, h, List.count_cons_self]
    · rw [if_neg hbase, h, List.count_cons_of_ne hbase]

theorem Anchors.Tallies.nextAll {anchors : Anchors} {past : List String} (h : anchors.Tallies past)
    (headings : List String) : anchors.nextAll headings =
      (turns past (headings.map anchorBase)).map fun turn => numbered turn.1 turn.2 := by
  induction headings generalizing anchors past with
  | nil => rfl
  | cons heading rest ih =>
    obtain ⟨hnext, htallies⟩ := h.next heading
    rw [Anchors.nextAll, List.map_cons, turns, List.map_cons, ← ih htallies, hnext]

/-- Each heading gets the anchor of its text, with the number of times behind it that this anchor
has come before. -/
theorem nextAll_eq (headings : List String) : ({} : Anchors).nextAll headings =
    (turns [] (headings.map anchorBase)).map fun turn => numbered turn.1 turn.2 :=
  Anchors.Tallies.empty.nextAll headings

theorem length_nextAll (anchors : Anchors) (headings : List String) :
    (anchors.nextAll headings).length = headings.length := by
  induction headings generalizing anchors with
  | nil => rfl
  | cons heading rest ih => rw [Anchors.nextAll, List.length_cons, ih, List.length_cons]

/-- All headings get different anchors exactly if none of them has a text whose anchor is that of
another text with a number behind it that is given out. -/
theorem nextAll_nodup_iff (headings : List String) :
    (({} : Anchors).nextAll headings).Nodup ↔
      ∀ base count, 0 < count → count < (headings.map anchorBase).count base →
        base ++ "-" ++ toString count ∉ headings.map anchorBase := by
  rw [nextAll_eq, List.nodup_map_iff_inj_on (nodup_turns _ _)]
  generalize headings.map anchorBase = bases
  have hmem : ∀ base count, (base, count) ∈ turns [] bases ↔ count < bases.count base := by
    intro base count
    rw [mem_turns, List.count_nil, Nat.zero_add, and_iff_right (Nat.zero_le count)]
  have hfirst : ∀ base, base ∈ bases ↔ (base, 0) ∈ turns [] bases := fun base => by
    rw [hmem, List.count_pos_iff]
  constructor
  · intro hinj base count hpos hcount hbase
    have heq := hinj _ ((hmem base count).2 hcount) _ ((hfirst _).1 hbase)
      (by rw [numbered_zero, numbered_of_pos base hpos])
    exact Nat.ne_of_gt hpos (congrArg Prod.snd heq)
  · -- two turns with one anchor both have a number, or both have none
    rintro hapart ⟨base, count⟩ hturn ⟨base', count'⟩ hturn' heq
    dsimp only at heq
    rcases Nat.eq_zero_or_pos count with rfl | hpos <;>
      rcases Nat.eq_zero_or_pos count' with rfl | hpos'
    · rw [numbered_zero, numbered_zero] at heq
      rw [heq]
    · rw [numbered_zero, numbered_of_pos base' hpos'] at heq
      exact absurd ((hfirst base).2 hturn) (heq ▸ hapart base' count' hpos' ((hmem _ _).1 hturn'))
    · rw [numbered_zero, numbered_of_pos base hpos] at heq
      exact absurd ((hfirst base').2 hturn') (heq ▸ hapart base count hpos ((hmem _ _).1 hturn))
    · obtain ⟨rfl, rfl⟩ := numbered_inj hpos hpos' heq
      rfl

/-- The second of two equal headings gets the anchor of a third one. -/
theorem heat_anchors_not_nodup :
    ¬(({} : Anchors).nextAll ["heat", "heat", "heat-1"]).Nodup := by
  decide +kernel

end Commentary.Render
