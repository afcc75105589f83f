import Commentary.Script.Scan
import Mathlib.Data.List.Infix

/-!
# The bodies around a line

A scan holds the bodies around its line on a stack, and counts braces beside it. The two are kept by
different means: a body is opened by what a line declares, and left by the count of the braces
alone. They agree all the same. Each body is deeper than the one around it, and none is as deep as
the code inside it (`Scan.Nested`). A piece of code opens bodies at the depth where it starts, and
leaves those that are as deep as its end, so the bodies below a depth outlast all code that stays at
that depth (`Scan.Nested.below_foldl_code`), and code that comes back to the depth where it began
leaves the stack as it was (`Scan.blocks_restored`).
-/

namespace Commentary.Script.Scan

/-- Each body is deeper than the one around it, and the code is deeper than all of them. -/
structure Nested (scan : Scan) : Prop where
  increasing : scan.blocks.Pairwise fun inner outer => outer.depth < inner.depth
  inside : ∀ block ∈ scan.blocks, block.depth < scan.depth

/-! ## One piece of code -/

theorem depth_flush (scan : Scan) (code : CodeHint) : (scan.flush code).depth = scan.depth := by
  unfold flush
  split <;> rfl

theorem blocks_flush (scan : Scan) (code : CodeHint) : (scan.flush code).blocks = scan.blocks := by
  unfold flush
  split <;> rfl

/-- At most one body is opened, at the depth of the code around it. -/
theorem exists_blocks_openBlock (scan : Scan) (line : List Char) (opens : Option Block) :
    ∃ opened : Option Block, (∀ block ∈ opened, block.depth = scan.depth) ∧
      (scan.openBlock line opens).blocks = opened.toList ++ scan.blocks := by
  unfold openBlock
  split
  · rename_i block
    split
    · exact ⟨some { block with depth := scan.depth }, by simp, rfl⟩
    · exact ⟨none, by simp, rfl⟩
  · exact ⟨none, by simp, rfl⟩

/-- Of bodies that get less deep from the top on, those on top that are as deep as the code are all
that are. -/
theorem dropWhile_eq_filter {depth : Nat} {blocks : List Block}
    (h : blocks.Pairwise fun inner outer => outer.depth < inner.depth) :
    (blocks.dropWhile fun block => depth ≤ block.depth) =
      blocks.filter fun block => block.depth < depth := by
  induction blocks with
  | nil => rfl
  | cons top blocks ih =>
    rw [List.pairwise_cons] at h
    by_cases htop : depth ≤ top.depth
    · rw [List.dropWhile_cons_of_pos (by simpa using htop), ih h.2,
        List.filter_cons_of_neg (by simpa using htop)]
    · have hless : ∀ block ∈ top :: blocks, block.depth < depth := by
        rw [List.forall_mem_cons]
        exact ⟨Nat.lt_of_not_le htop, fun block hblock =>
          (h.1 block hblock).trans (Nat.lt_of_not_le htop)⟩
      rw [List.dropWhile_cons_of_neg (by simpa using htop),
        List.filter_eq_self.2 fun block hblock => by simpa using hless block hblock]

/-- All that a piece of code does to the bodies: it opens at most one, at its own depth, and keeps
those that are less deep than the code behind it. -/
theorem Nested.exists_blocks_code {scan : Scan} (h : scan.Nested) (piece : List Char) :
    ∃ opened : Option Block, (∀ block ∈ opened, block.depth = scan.depth) ∧
      (opened.toList ++ scan.blocks).Pairwise (fun inner outer => outer.depth < inner.depth) ∧
      (scan.code piece).blocks = (opened.toList ++ scan.blocks).filter
        fun block => block.depth < (scan.code piece).depth := by
  unfold code
  simp only
  split
  · refine ⟨none, by simp, h.increasing, (List.filter_eq_self.2 fun block hblock => ?_).symm⟩
    simpa using h.inside block hblock
  · obtain ⟨opened, hdepth, hblocks⟩ := exists_blocks_openBlock
      (scan.flush (((declaration? scan.blocks.head? (Text.trimChars piece)).map
        Declaration.code).getD {})) (Text.trimChars piece)
      ((declaration? scan.blocks.head? (Text.trimChars piece)).bind Declaration.opens)
    rw [depth_flush] at hdepth
    rw [blocks_flush] at hblocks
    have hincreasing : (opened.toList ++ scan.blocks).Pairwise
        fun inner outer => outer.depth < inner.depth := by
      refine List.pairwise_append.2 ⟨?_, h.increasing, fun top htop block hblock => ?_⟩
      · cases opened <;> simp
      · rw [hdepth top (Option.mem_toList.1 htop)]
        exact h.inside block hblock
    refine ⟨opened, hdepth, hincreasing, ?_⟩
    simp only [countLine, hblocks, dropWhile_eq_filter hincreasing]

theorem Nested.code {scan : Scan} (h : scan.Nested) (piece : List Char) :
    (scan.code piece).Nested := by
  obtain ⟨opened, -, hincreasing, hblocks⟩ := h.exists_blocks_code piece
  refine ⟨?_, fun block hmem => ?_⟩
  · rw [hblocks]
    exact hincreasing.sublist List.filter_sublist
  · rw [hblocks] at hmem
    simpa using (List.mem_filter.1 hmem).2

/-! ## The bodies below a depth -/

/-- The bodies that are less deep than a given depth. -/
def below (scan : Scan) (depth : Nat) : List Block :=
  scan.blocks.filter fun block => block.depth < depth

theorem Nested.below_depth {scan : Scan} (h : scan.Nested) :
    scan.below scan.depth = scan.blocks :=
  List.filter_eq_self.2 fun block hmem => by simpa using h.inside block hmem

/-- Code that starts and ends no less deep than a depth keeps the bodies below that depth. -/
theorem Nested.below_code {scan : Scan} (h : scan.Nested) {depth : Nat}
    (hstart : depth ≤ scan.depth) {piece : List Char} (hend : depth ≤ (scan.code piece).depth) :
    (scan.code piece).below depth = scan.below depth := by
  obtain ⟨opened, hdepth, -, hblocks⟩ := h.exists_blocks_code piece
  have hopened : opened.toList.filter (fun block => block.depth < depth) = [] := by
    refine List.filter_eq_nil_iff.2 fun block hmem => ?_
    rw [hdepth block (Option.mem_toList.1 hmem)]
    simpa using hstart
  -- what is below the depth is less deep than the code, so the first filter lets it through
  have hboth : ∀ block : Block,
      (decide (block.depth < depth) && decide (block.depth < (scan.code piece).depth)) =
        decide (block.depth < depth) := by
    intro block
    rw [← Bool.decide_and]
    exact decide_eq_decide.2 (and_iff_left_of_imp fun hless => hless.trans_le hend)
  rw [below, below, hblocks, List.filter_filter, List.filter_congr fun block _ => hboth block,
    List.filter_append, hopened, List.nil_append]

/-! ## Any code -/

theorem Nested.foldl_code {scan : Scan} (h : scan.Nested) (pieces : List (List Char)) :
    (pieces.foldl Scan.code scan).Nested :=
  List.foldlRecOn pieces Scan.code h fun _ hscan piece _ => hscan.code piece

/-- Code that never ends a piece less deep than a depth keeps the bodies below that depth. -/
theorem Nested.below_foldl_code {scan : Scan} (h : scan.Nested) {depth : Nat}
    {pieces : List (List Char)}
    (hstay : ∀ part, part <+: pieces → depth ≤ (part.foldl Scan.code scan).depth) :
    (pieces.foldl Scan.code scan).below depth = scan.below depth := by
  induction pieces generalizing scan with
  | nil => rfl
  | cons piece pieces ih =>
    have hstart : depth ≤ scan.depth := hstay [] List.nil_prefix
    have hend : depth ≤ (scan.code piece).depth :=
      hstay [piece] (List.cons_prefix_cons.2 ⟨rfl, List.nil_prefix⟩)
    rw [List.foldl_cons, ih (h.code piece) fun part hpart =>
      hstay (piece :: part) (List.cons_prefix_cons.2 ⟨rfl, hpart⟩)]
    exact h.below_code hstart hend

theorem nested_of_outermost (opened pending : Option DocComment)
    (found : List (DocComment × CodeHint)) : ({ opened, pending, found } : Scan).Nested :=
  ⟨.nil, fun _ hmem => nomatch hmem⟩

/-- Whatever code a scan has taken, the bodies around its line get deeper from the outermost one on,
and all of them are less deep than the code. Any more code that is never less deep at the end of a
piece, and is as deep at its own end, leaves exactly these bodies around the line. -/
theorem blocks_restored (opened pending : Option DocComment) (found : List (DocComment × CodeHint))
    (pieces : List (List Char)) :
    let scan := pieces.foldl code { opened, pending, found }
    scan.Nested ∧
      ∀ more : List (List Char),
        (∀ part, part <+: more → scan.depth ≤ (part.foldl code scan).depth) →
        (more.foldl code scan).depth = scan.depth →
        (more.foldl code scan).blocks = scan.blocks := by
  intro scan
  have hnested : scan.Nested := (nested_of_outermost opened pending found).foldl_code pieces
  refine ⟨hnested, fun more hstay hback => ?_⟩
  calc (more.foldl code scan).blocks
      = (more.foldl code scan).below scan.depth := by
        rw [← hback, (hnested.foldl_code more).below_depth]
    _ = scan.below scan.depth := hnested.below_foldl_code hstay
    _ = scan.blocks := hnested.below_depth

/-- A class and one of its methods. -/
def insideStir : List (List Char) :=
  ["class Soup \x7b // of the day".toList, "stir(spoon) \x7b".toList]

/-- Code of the method, with a function of its own and braces in strings. -/
def ofStir : List (List Char) :=
  ["function turn() \x7b return '\x7d'; \x7d".toList,
    "if (\"\x7b\") \x7b turn(); \x7b".toList, "\x7d \x7d".toList]

/-- Inside the method, its code leaves the bodies of the class and of the method around the line. -/
theorem blocks_restored_stir :
    let scan := insideStir.foldl code {}
    (∀ part, part <+: ofStir → scan.depth ≤ (part.foldl code scan).depth) ∧
      (ofStir.foldl code scan).depth = scan.depth ∧ scan.depth = 2 ∧
      (ofStir.foldl code scan).blocks = scan.blocks ∧
      scan.blocks.map (fun block => (block.name, block.depth)) =
        [("Soup#stir", 1), ("Soup", 0)] := by
  intro scan
  have hstay : ∀ part, part <+: ofStir → scan.depth ≤ (part.foldl code scan).depth := by
    have hinits : ∀ part ∈ ofStir.inits, scan.depth ≤ (part.foldl code scan).depth := by
      decide +kernel
    exact fun part hpart => hinits part ((List.mem_inits part ofStir).2 hpart)
  have hback : (ofStir.foldl code scan).depth = scan.depth := by decide +kernel
  exact ⟨hstay, hback, by decide +kernel,
    (blocks_restored none none [] insideStir).2 ofStir hstay hback, by decide +kernel⟩

end Commentary.Script.Scan
