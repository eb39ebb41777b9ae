import LiebeOS.Fs.PathParser
import LiebeOS.Lib.Separated

/-! What `pathparser_parse` makes of a path, when the records it requests are
granted: the pieces of the path between its slashes. -/
namespace LiebeOS

open Attempts Separated

/-- No part of the path without a slash is as long as the buffer for one. -/
def ComponentsShort (path : List UInt8) : Prop :=
  ∀ c, c <:+: path → slash ∉ c → c.length < liebeOsMaxPathLen

/-- The requests that `create_path_nodes` makes for `path` are granted. -/
def NodesGranted : Nat → Heap → List UInt8 → Prop
  | 0, _, _ => True
  | left + 1, heap, path => path = [] ∨
      ((heapMalloc heap liebeOsMaxPathLen).1 ≠ 0 ∧
        (heapMalloc (heapMalloc heap liebeOsMaxPathLen).2 8).1 ≠ 0 ∧
        NodesGranted left (heapMalloc (heapMalloc heap liebeOsMaxPathLen).2 8).2 (pathRest path))

/-- All requests made for a path are granted. -/
def PathGranted (heap : Heap) (path : List UInt8) : Prop :=
  (heapMalloc heap 8).1 ≠ 0 ∧ NodesGranted path.length (heapMalloc heap 8).2 (path.drop 3)

/-- The parser answers with a root for the drive and these parts. -/
def Parses (heap : Heap) (path : List UInt8) (driveNo : Int) (parts : List (List UInt8)) : Prop :=
  ∃ root heap', pathparserParse heap path = .returned (root, heap') ∧ root.root ≠ 0 ∧
    root.driveNo = driveNo ∧ root.first.map PathPart.part = parts

/-- A digit, a colon and a slash in front of the rest. -/
def drivePath (d : UInt8) (rest : List UInt8) : List UInt8 := d :: colon :: slash :: rest

/-- The recursion cuts the path at its slashes. -/
theorem createPathNodes_pieces (left : Nat) {heap : Heap} {path : List UInt8}
    (hGranted : NodesGranted left heap path)
    (hShort : ∀ p ∈ pieces slash left path, p.length < liebeOsMaxPathLen) :
    ∃ parts heap', createPathNodes left heap path = .returned (parts, heap') ∧
      parts.map PathPart.part = pieces slash left path := by
  induction left generalizing heap path with
  | zero => exact ⟨[], heap, rfl, rfl⟩
  | succ left ih =>
      rw [createPathNodes, pieces]
      by_cases hEmpty : path = []
      · rw [if_pos hEmpty, if_pos hEmpty]
        exact ⟨[], heap, rfl, rfl⟩
      rw [pieces, if_neg hEmpty] at hShort
      rw [if_neg hEmpty, if_neg hEmpty]
      obtain ⟨_, hNode, hRest⟩ := hGranted.resolve_left hEmpty
      obtain ⟨parts, heap', hParts, hMap⟩ :=
        ih hRest fun p hp => hShort p (List.mem_cons_of_mem _ hp)
      have hFits : (pathComponent path).length < liebeOsMaxPathLen := hShort _ List.mem_cons_self
      have hBlock : ¬ liebeOsHeapBlockSize ≤ (pathComponent path).length := by
        unfold liebeOsMaxPathLen at hFits
        unfold liebeOsHeapBlockSize
        omega
      rw [if_neg hBlock]
      dsimp only
      generalize heapMalloc heap liebeOsMaxPathLen = str at hNode hParts ⊢
      generalize heapMalloc str.2 8 = node at hNode hParts ⊢
      refine ⟨⟨node.1, str.1, pathComponent path⟩ :: parts, heap', ?_, ?_⟩
      · refine Attempt.bind_returned_iff.mpr ⟨(parts, heap'), hParts, ?_⟩
        dsimp only
        rw [if_neg hNode]
      · rw [List.map_cons, hMap]
        rfl

theorem isValidPath_iff {path : List UInt8} :
    isValidPath path = true ↔ ∃ d rest, isDigit d = true ∧ path = drivePath d rest := by
  unfold isValidPath
  match path with
  | [] => simp [strnlen, drivePath]
  | [_] => simp [strnlen, drivePath, liebeOsMaxPathLen]
  | [_, _] => simp [strnlen, drivePath, liebeOsMaxPathLen]
  | d :: c :: s :: rest =>
      have hLong : 3 ≤ strnlen (d :: c :: s :: rest) liebeOsMaxPathLen := by
        unfold strnlen liebeOsMaxPathLen
        simp only [List.length_cons]
        omega
      simp only [hLong, decide_true, Bool.true_and, Bool.and_eq_true, beq_iff_eq, drivePath,
        List.cons.injEq, List.getD_cons_zero, List.getD_cons_succ]
      constructor
      · rintro ⟨hDigit, hColon, hSlash⟩
        exact ⟨d, rest, hDigit, rfl, hColon, hSlash, rfl⟩
      · rintro ⟨_, _, hDigit, rfl, hColon, hSlash, rfl⟩
        exact ⟨hDigit, hColon, hSlash⟩

theorem parses_pieces {heap : Heap} {d : UInt8} {rest : List UInt8} (hDigit : isDigit d = true)
    (hGranted : PathGranted heap (drivePath d rest))
    (hShort : ∀ p ∈ pieces slash (drivePath d rest).length rest, p.length < liebeOsMaxPathLen) :
    Parses heap (drivePath d rest) (atoi d) (pieces slash (drivePath d rest).length rest) := by
  obtain ⟨hRoot, hNodes⟩ := hGranted
  obtain ⟨parts, heap', hParts, hMap⟩ := createPathNodes_pieces _ hNodes hShort
  have hValid : isValidPath (drivePath d rest) = true := isValidPath_iff.mpr ⟨d, rest, hDigit, rfl⟩
  refine ⟨⟨_, _, parts⟩, heap', ?_, hRoot, rfl, hMap⟩
  rw [pathparserParse, hValid, if_neg (by decide)]
  exact Attempt.bind_returned_iff.mpr ⟨_, hParts, rfl⟩

/-- With its requests granted, the parser gives the drive and the parts of every
valid path: their join is the path behind the drive, up to a slash at its end.
All other strings are refused, and a chain of parts comes back from its join. -/
theorem pathparserParse_roundTrip (heap : Heap) :
    (∀ d rest, isDigit d = true → ComponentsShort rest → PathGranted heap (drivePath d rest) →
      ∃ parts, Parses heap (drivePath d rest) (atoi d) parts ∧ (∀ p ∈ parts, slash ∉ p) ∧
        [slash].intercalate parts = withoutLast slash rest ∧ (parts = [] ↔ rest = [])) ∧
    (∀ path, (¬ ∃ d rest, isDigit d = true ∧ path = drivePath d rest) →
      pathparserParse heap path = .returned (⟨0, 0, []⟩, heap)) ∧
    (∀ d parts, isDigit d = true →
      (∀ p ∈ parts, p ≠ [] ∧ slash ∉ p ∧ p.length < liebeOsMaxPathLen) →
      PathGranted heap (drivePath d ([slash].intercalate parts)) →
      Parses heap (drivePath d ([slash].intercalate parts)) (atoi d) parts) := by
  have hLong : ∀ (d : UInt8) (rest : List UInt8), rest.length ≤ (drivePath d rest).length := by
    intro d rest
    simp only [drivePath, List.length_cons]
    omega
  refine ⟨fun d rest hDigit hShort hGranted => ?_, fun path hOther => ?_,
    fun d parts hDigit hParts hGranted => ?_⟩
  · refine ⟨pieces slash (drivePath d rest).length rest, ?_, fun p hp => (mem_pieces hp).1,
      intercalate_pieces (hLong d rest), pieces_eq_nil_iff (hLong d rest)⟩
    exact parses_pieces hDigit hGranted fun p hp =>
      hShort p (mem_pieces hp).2 (mem_pieces hp).1
  · have hRefused : isValidPath path = false := by
      rw [← Bool.not_eq_true, isValidPath_iff]
      exact hOther
    rw [pathparserParse, hRefused]
    rfl
  · have hBack : pieces slash (drivePath d ([slash].intercalate parts)).length
        ([slash].intercalate parts) = parts :=
      pieces_intercalate (fun p hp => ⟨(hParts p hp).1, (hParts p hp).2.1⟩) (hLong d _)
    have hParses := @parses_pieces heap d ([slash].intercalate parts) hDigit hGranted fun p hp => by
      rw [hBack] at hp
      exact (hParts p hp).2.2
    rwa [hBack] at hParses

/-- The path `0:/a//` on a heap of eight free blocks. -/
theorem pathparserParse_roundTrip_trailing :
    ∃ parts, Parses ⟨⟨fun _ => 0, 8, []⟩, 0x01000000⟩ (drivePath 0x30 [0x61, slash, slash]) 0 parts ∧
      (∀ p ∈ parts, slash ∉ p) ∧ [slash].intercalate parts = [0x61, slash] := by
  have hShort : ComponentsShort [0x61, slash, slash] := fun c hc _ =>
    lt_of_le_of_lt hc.length_le (by decide)
  have hGranted : PathGranted ⟨⟨fun _ => 0, 8, []⟩, 0x01000000⟩
      (drivePath 0x30 [0x61, slash, slash]) :=
    ⟨by decide, Or.inr ⟨by decide, by decide, Or.inr ⟨by decide, by decide, Or.inl rfl⟩⟩⟩
  obtain ⟨parts, hParses, hFree, hJoin, _⟩ :=
    (pathparserParse_roundTrip ⟨⟨fun _ => 0, 8, []⟩, 0x01000000⟩).1 0x30 [0x61, slash, slash]
      (by decide) hShort hGranted
  exact ⟨parts, hParses, hFree, hJoin⟩

end LiebeOS
