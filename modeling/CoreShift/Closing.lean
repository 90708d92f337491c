import CoreShift.LowLevel.CloseRange

/-!
# What `close_range_fast` leaves open

The function closes the numbers below and above the one that is kept by two calls of
`close_range`, and walks through `/proc/self/fd` when one of them fails. The bound of the first
call is clamped to what is above 2, that of the second is not.
-/

namespace CoreShift

open Utils

/-! ## Numbers -/

section Numbers

variable {fd kept : RawFd}

theorem two_lt_iff (h : 0 ≤ fd) : 2 < fd ↔ fd ∉ [(0 : RawFd), 1, 2] := by
  rw [Int32.lt_iff_toInt_lt]
  rw [Int32.le_iff_toInt_le] at h
  simp only [List.mem_cons, List.not_mem_nil, or_false, ← Int32.toInt_inj]
  have h0 : (0 : RawFd).toInt = 0 := rfl
  have h1 : (1 : RawFd).toInt = 1 := rfl
  have h2 : (2 : RawFd).toInt = 2 := rfl
  omega

theorem toNat_toUInt32 (h : 0 ≤ fd) : (fd.toUInt32.toNat : ℤ) = fd.toInt := by
  rw [Int32.toInt_eq_toNatClampNeg h, Int32.toNat_toUInt32_of_le h]

/-- The bounds that are passed to `close_range` when no number is kept. -/
theorem range_iff (h : 0 ≤ fd) : 3 ≤ fd.toUInt32 ∧ fd.toUInt32 ≤ 0xffffffff ↔ 2 < fd := by
  rw [Int32.lt_iff_toInt_lt, UInt32.le_iff_toNat_le, UInt32.le_iff_toNat_le]
  have hval := toNat_toUInt32 h
  have hlt := fd.toUInt32.toNat_lt
  have h2 : (2 : RawFd).toInt = 2 := rfl
  have h3 : (3 : UInt32).toNat = 3 := rfl
  have hlast : (0xffffffff : UInt32).toNat = 0xffffffff := rfl
  omega

/-- The upper bound of the first call. -/
theorem toNat_clamp (h : 0 ≤ kept) :
    ((max (kept - 1) 2).toUInt32.toNat : ℤ) = max (kept.toInt - 1) 2 := by
  have hnonneg : 0 ≤ kept.toInt := Int32.le_iff_toInt_le.mp h
  have hlt := kept.toInt_lt
  have h1 : (1 : RawFd).toInt = 1 := rfl
  have h2 : (2 : RawFd).toInt = 2 := rfl
  have hpred : (kept - 1).toInt = kept.toInt - 1 := by
    rw [Int32.toInt_sub, h1]
    apply Int.bmod_eq_of_le <;> omega
  have hmax : max (kept - 1) 2 = if kept - 1 ≤ 2 then 2 else kept - 1 := rfl
  rw [hmax]
  split
  · next hle =>
    rw [Int32.le_iff_toInt_le] at hle
    have hval : (2 : RawFd).toUInt32.toNat = 2 := rfl
    omega
  · next hgt =>
    rw [Int32.not_le] at hgt
    have hpos : 0 ≤ kept - 1 := Int32.le_of_lt (Int32.lt_trans (by decide) hgt)
    rw [Int32.lt_iff_toInt_lt] at hgt
    rw [toNat_toUInt32 hpos]
    omega

/-- The first call closes what is below the number that is kept, but for 0, 1 and 2. -/
theorem below_iff (h : 0 ≤ fd) (hkept : 0 ≤ kept) :
    3 ≤ fd.toUInt32 ∧ fd.toUInt32 ≤ (max (kept - 1) 2).toUInt32 ↔ 2 < fd ∧ fd < kept := by
  rw [Int32.lt_iff_toInt_lt, Int32.lt_iff_toInt_lt, UInt32.le_iff_toNat_le,
    UInt32.le_iff_toNat_le]
  have hval := toNat_toUInt32 h
  have hclamp := toNat_clamp hkept
  have h2 : (2 : RawFd).toInt = 2 := rfl
  have h3 : (3 : UInt32).toNat = 3 := rfl
  omega

/-- The second call closes all that is above it. -/
theorem above_iff (h : 0 ≤ fd) (hkept : 0 ≤ kept) :
    (kept + 1).toUInt32 ≤ fd.toUInt32 ∧ fd.toUInt32 ≤ 0xffffffff ↔ kept < fd := by
  rw [Int32.lt_iff_toInt_lt, UInt32.le_iff_toNat_le, UInt32.le_iff_toNat_le, Int32.toUInt32_add,
    UInt32.toNat_add]
  have hval := toNat_toUInt32 h
  have hval' := toNat_toUInt32 hkept
  have hlt := fd.toInt_lt
  have hlt' := kept.toInt_lt
  have h1 : (1 : RawFd).toUInt32.toNat = 1 := rfl
  have hlast : (0xffffffff : UInt32).toNat = 0xffffffff := rfl
  omega

end Numbers

section Calls

variable {V : Type} {k : CloseAnswers} {keepFd : Option RawFd} {kept : RawFd} {t : FdTable RawFd V}

/-! ## The two ranges -/

/-- The bounds are in order and the kernel does not refuse. -/
def CloseAnswers.answers (k : CloseAnswers) (first last : UInt32) : Bool :=
  first ≤ last && !k.refuses first last

/-- The calls of `close_range`, and whether all of them return 0. -/
def closeRanges (k : CloseAnswers) (keepFd : Option RawFd) (t : FdTable RawFd V) :
    FdTable RawFd V × Bool :=
  match keepFd with
  | some fd =>
    let r1 := closeRange k t 3 (max (fd - 1) 2).toUInt32
    let r2 := closeRange k r1.1 (fd + 1).toUInt32 0xffffffff
    (r2.1, r1.2 && r2.2)
  | none => closeRange k t 3 0xffffffff

theorem closeRangeFast_eq (k : CloseAnswers) (keepFd : Option RawFd) (t : FdTable RawFd V) :
    closeRangeFast k keepFd t = if (closeRanges k keepFd t).2 then (closeRanges k keepFd t).1
      else closeListed k keepFd (closeRanges k keepFd t).1 := by
  cases keepFd <;> rfl

theorem CloseAnswers.answers_iff {first last : UInt32} :
    k.answers first last = true ↔ first ≤ last ∧ k.refuses first last = false := by
  simp [answers]

/-- A call that is not answered closes nothing. -/
theorem closeRange_eq (k : CloseAnswers) (t : FdTable RawFd V) (first last : UInt32) :
    closeRange k t first last = (t.closeWhere fun fd => k.answers first last = true ∧
      first ≤ fd.toUInt32 ∧ fd.toUInt32 ≤ last, k.answers first last) := by
  unfold closeRange
  by_cases h : first ≤ last ∧ k.refuses first last = false
  · have hanswers := CloseAnswers.answers_iff.mpr h
    rw [if_pos h, hanswers]
    refine Prod.ext (FdTable.closeWhere_congr fun fd _ => ?_) rfl
    exact (and_iff_right rfl).symm
  · have hanswers : k.answers first last = false := by
      rw [← Bool.not_eq_true, CloseAnswers.answers_iff]
      exact h
    rw [if_neg h, hanswers]
    refine Prod.ext ?_ rfl
    funext fd
    simp [FdTable.closeWhere]

/-- With a number that is kept, the calls that are answered close what is below it and above 2,
and what is above it. -/
theorem closeRanges_some (hnonneg : ∀ fd, t fd ≠ none → 0 ≤ fd) (hkept : 0 ≤ kept) :
    let below := k.answers 3 (max (kept - 1) 2).toUInt32
    let above := k.answers (kept + 1).toUInt32 0xffffffff
    closeRanges k (some kept) t = (t.closeWhere fun fd =>
      below = true ∧ 2 < fd ∧ fd < kept ∨ above = true ∧ kept < fd, below && above) := by
  intro below above
  unfold closeRanges
  dsimp only
  rw [closeRange_eq, closeRange_eq, FdTable.closeWhere_closeWhere]
  refine Prod.ext (FdTable.closeWhere_congr fun fd hopen => ?_) rfl
  rw [below_iff (hnonneg fd hopen) hkept, above_iff (hnonneg fd hopen) hkept]

theorem closeRanges_none (hnonneg : ∀ fd, t fd ≠ none → 0 ≤ fd) :
    closeRanges k none t = (t.closeWhere fun fd => k.answers 3 0xffffffff = true ∧ 2 < fd,
      k.answers 3 0xffffffff) := by
  unfold closeRanges
  dsimp only
  rw [closeRange_eq]
  refine Prod.ext (FdTable.closeWhere_congr fun fd hopen => ?_) rfl
  rw [range_iff (hnonneg fd hopen)]

/-- The calls open nothing. -/
theorem closeRanges_of_none {fd : RawFd} (h : t fd = none) :
    (closeRanges k keepFd t).1 fd = none := by
  have hclose : ∀ {t : FdTable RawFd V} {first last : UInt32}, t fd = none →
      (closeRange k t first last).1 fd = none := by
    intro t first last h
    rw [closeRange_eq]
    dsimp only
    exact FdTable.closeWhere_of_none h
  unfold closeRanges
  cases keepFd with
  | none => exact hclose h
  | some kept => exact hclose (hclose h)

/-! ## The walk -/

/-- `/proc/self/fd` can be read. -/
def Readable (t : FdTable RawFd V) (directory : Option (RawFd × List RawFd)) : Prop :=
  ∃ dirFd listed, directory = some (dirFd, listed) ∧ t.Listing dirFd listed

/-- The only call that there is without a number to keep has closed nothing when the walk follows
it. -/
theorem Readable.refused (h : Readable t k.directory) :
    (closeRanges k none t).2 = false → Readable (closeRanges k none t).1 k.directory := by
  intro hrefused
  have hcall : closeRanges k none t = closeRange k t 3 0xffffffff := rfl
  rw [hcall, closeRange_eq] at hrefused ⊢
  have hsame : (t.closeWhere fun fd => k.answers 3 0xffffffff = true ∧
      3 ≤ fd.toUInt32 ∧ fd.toUInt32 ≤ 0xffffffff) = t := by
    funext fd
    exact if_neg fun hclosed => Bool.false_ne_true (hrefused.symm.trans hclosed.1)
  rw [hsame]
  exact h

/-- The walk closes what is open above 2, but for the number that is kept. -/
theorem closeListed_eq (hdir : Readable t k.directory) :
    closeListed k keepFd t = t.closeWhere fun fd => 2 < fd ∧ fd ≠ keepFd.getD (-1) := by
  have ⟨dirFd, listed, hdirectory, hlisting⟩ := hdir
  unfold closeListed
  simp only [hdirectory, FdTable.closeAll_eq]
  funext fd
  by_cases hown : fd = dirFd
  · rw [hown]
    unfold FdTable.closeWhere
    rw [hlisting.unopened, ite_self]
    exact FdTable.close_self _ dirFd
  · rw [FdTable.close_of_ne (Ne.symm hown)]
    refine congrFun (FdTable.closeWhere_congr fun x hopen => ?_) fd
    have hlisted := (hlisting.complete x).mpr (Or.inl hopen)
    rw [List.mem_filter, decide_eq_true_eq, and_iff_right hlisted]
    refine ⟨fun hx => ⟨hx.1, hx.2.1⟩, fun hx => ⟨hx.1, hx.2, fun heq => ?_⟩⟩
    rw [heq] at hopen
    exact hopen hlisting.unopened

/-! ## Both together -/

/-- Through the calls or the walk, what is above 2 and not kept is closed; the second call closes
all that is above the number that is kept. -/
theorem closeRangeFast_some (hnonneg : ∀ fd, t fd ≠ none → 0 ≤ fd) (hkept : 0 ≤ kept)
    (hdir : (closeRanges k (some kept) t).2 = false →
      Readable (closeRanges k (some kept) t).1 k.directory) :
    closeRangeFast k (some kept) t = t.closeWhere fun fd =>
      2 < fd ∧ fd ≠ kept ∨ k.answers (kept + 1).toUInt32 0xffffffff = true ∧ kept < fd := by
  rw [closeRangeFast_eq]
  by_cases hall : (closeRanges k (some kept) t).2 = true
  · rw [if_pos hall]
    rw [closeRanges_some hnonneg hkept] at hall ⊢
    have ⟨hbelow, habove⟩ := Bool.and_eq_true_iff.mp hall
    refine FdTable.closeWhere_congr fun fd _ => ?_
    rw [and_iff_right hbelow, and_iff_right habove]
    constructor
    · rintro (⟨h2, hlt⟩ | hlt)
      · exact Or.inl ⟨h2, Int32.ne_of_lt hlt⟩
      · exact Or.inr hlt
    · rintro (⟨h2, hne⟩ | hlt)
      · exact (Int32.lt_or_lt_of_ne hne).imp (fun hlt => ⟨h2, hlt⟩) fun hlt => hlt
      · exact Or.inr hlt
  · rw [if_neg hall, closeListed_eq (hdir (Bool.eq_false_iff.mpr hall)),
      closeRanges_some hnonneg hkept, FdTable.closeWhere_closeWhere]
    refine FdTable.closeWhere_congr fun fd _ => ?_
    constructor
    · rintro ((⟨_, h2, hlt⟩ | habove) | hwalk)
      · exact Or.inl ⟨h2, Int32.ne_of_lt hlt⟩
      · exact Or.inr habove
      · exact Or.inl hwalk
    · rintro (hwalk | habove)
      · exact Or.inr hwalk
      · exact Or.inl (Or.inr habove)

theorem closeRangeFast_none (hnonneg : ∀ fd, t fd ≠ none → 0 ≤ fd)
    (hdir : (closeRanges k none t).2 = false → Readable (closeRanges k none t).1 k.directory) :
    closeRangeFast k none t = t.closeWhere (2 < ·) := by
  rw [closeRangeFast_eq]
  by_cases hall : (closeRanges k none t).2 = true
  · rw [if_pos hall]
    rw [closeRanges_none hnonneg] at hall ⊢
    exact FdTable.closeWhere_congr fun fd _ => and_iff_right hall
  · rw [if_neg hall, closeListed_eq (hdir (Bool.eq_false_iff.mpr hall)),
      closeRanges_none hnonneg, FdTable.closeWhere_closeWhere]
    refine FdTable.closeWhere_congr fun fd hopen => ?_
    constructor
    · rintro (⟨_, h2⟩ | ⟨h2, _⟩) <;> exact h2
    · intro h2
      refine Or.inr ⟨h2, ?_⟩
      rintro rfl
      exact absurd h2 (by decide)

end Calls

/-! ## What is left open -/

/-- The descriptors of a process. -/
structure ProcessFds (V : Type) where
  table : FdTable RawFd V
  nonneg : ∀ fd, table fd ≠ none → 0 ≤ fd

section Kept

variable {V : Type} {k : CloseAnswers} {keepFd : Option RawFd} {t : FdTable RawFd V}

/-- What is open of 0, 1, 2 and the number that is kept. -/
def keptTable (keepFd : Option RawFd) (t : FdTable RawFd V) : FdTable RawFd V :=
  fun fd => if fd ∈ [0, 1, 2] ∨ keepFd = some fd then t fd else none

theorem keptTable_eq (hnonneg : ∀ fd, t fd ≠ none → 0 ≤ fd) :
    keptTable keepFd t = t.closeWhere fun fd => 2 < fd ∧ keepFd ≠ some fd := by
  funext fd
  unfold keptTable FdTable.closeWhere
  dsimp only
  by_cases hopen : t fd = none
  · rw [hopen, ite_self, ite_self]
  · have hclosed : 2 < fd ∧ keepFd ≠ some fd ↔ ¬ (fd ∈ [0, 1, 2] ∨ keepFd = some fd) := by
      rw [two_lt_iff (hnonneg fd hopen), not_or]
    split
    · next h => exact (if_neg fun hboth => hclosed.mp hboth h).symm
    · next h => exact (if_pos (hclosed.mpr h)).symm

/-- Above 2, the function does what it should in any case. -/
theorem closeRangeFast_above (s : ProcessFds V)
    (hkeep : ∀ fd, keepFd = some fd → s.table fd ≠ none)
    (hdir : (closeRanges k keepFd s.table).2 = false →
      Readable (closeRanges k keepFd s.table).1 k.directory) {fd : RawFd} (hfd : 2 < fd) :
    closeRangeFast k keepFd s.table fd = if keepFd = some fd then s.table fd else none := by
  cases keepFd with
  | none =>
    rw [closeRangeFast_none s.nonneg hdir]
    exact if_pos hfd
  | some kept =>
    rw [closeRangeFast_some s.nonneg (s.nonneg kept (hkeep kept rfl)) hdir]
    unfold FdTable.closeWhere
    by_cases heq : kept = fd
    · rw [heq, if_pos rfl, if_neg]
      rintro (⟨_, hne⟩ | ⟨_, hlt⟩)
      · exact hne rfl
      · exact Int32.lt_irrefl hlt
    · have hne : some kept ≠ some fd := fun hsome => heq (Option.some.inj hsome)
      rw [if_neg hne, if_pos (Or.inl ⟨hfd, Ne.symm heq⟩)]

/-- The function leaves open what it should if and only if nothing is open between the number that
is kept and 3, or the call of `close_range` for what is above that number fails. -/
theorem closeRangeFast_keeps_iff (s : ProcessFds V)
    (hkeep : ∀ fd, keepFd = some fd → s.table fd ≠ none)
    (hdir : (closeRanges k keepFd s.table).2 = false →
      Readable (closeRanges k keepFd s.table).1 k.directory) :
    closeRangeFast k keepFd s.table = keptTable keepFd s.table ↔
      ∀ kept, keepFd = some kept → k.refuses (kept + 1).toUInt32 0xffffffff = false →
        ∀ fd, kept < fd → fd ≤ 2 → s.table fd = none := by
  rw [keptTable_eq s.nonneg]
  cases keepFd with
  | none =>
    rw [closeRangeFast_none s.nonneg hdir]
    refine iff_of_true ?_ (by simp)
    exact FdTable.closeWhere_congr fun fd _ => by simp
  | some kept =>
    have hpos := s.nonneg kept (hkeep kept rfl)
    have hlast : (kept + 1).toUInt32 ≤ 0xffffffff := by
      rw [UInt32.le_iff_toNat_le]
      exact Nat.le_of_lt_succ (kept + 1).toUInt32.toNat_lt
    rw [closeRangeFast_some s.nonneg hpos hdir, FdTable.closeWhere_eq_iff,
      CloseAnswers.answers_iff, and_iff_right hlast]
    constructor
    · intro h kept' heq hanswers fd hlt hle
      rw [← Option.some.inj heq] at hlt hanswers
      by_contra hopen
      have habove := ((h fd hopen).mp (Or.inr ⟨hanswers, hlt⟩)).1
      exact Int32.not_le.mpr habove hle
    · intro h fd hopen
      rw [ne_eq, ne_eq, Option.some.injEq, eq_comm (a := kept)]
      refine or_iff_left_of_imp fun ⟨hanswers, hlt⟩ => ⟨?_, (Int32.ne_of_lt hlt).symm⟩
      by_contra hle
      exact hopen (h kept rfl hanswers fd hlt (Int32.not_lt.mp hle))

end Kept

/-! ### The standard streams and 3 -/

namespace Closing

/-- A process that has 0, 1, 2 and 3 open. -/
def four : ProcessFds ℕ where
  table fd := if fd ∈ [0, 1, 2, 3] then some ⟨7, false⟩ else none
  nonneg := by
    intro fd hopen
    have hmem : fd ∈ [0, 1, 2, 3] := by
      by_contra hno
      exact hopen (if_neg hno)
    simp only [List.mem_cons, List.not_mem_nil, or_false] at hmem
    rcases hmem with rfl | rfl | rfl | rfl <;> decide

/-- The directory lists what the calls leave open of the four, and its own descriptor. -/
theorem readable_four {k : CloseAnswers} {keepFd : Option RawFd} {dir : RawFd} {rest : List RawFd}
    (hdirectory : k.directory = some (dir, dir :: rest)) (hdir : dir ∉ rest)
    (hopen : [0, 1, 2, 3].filter (fun fd => ((closeRanges k keepFd four.table).1 fd).isSome) =
      rest) :
    Readable (closeRanges k keepFd four.table).1 k.directory := by
  have hall : ∀ fd, fd ∈ rest ↔ (closeRanges k keepFd four.table).1 fd ≠ none := by
    intro fd
    rw [← hopen, List.mem_filter, Option.isSome_iff_ne_none, and_iff_right_iff_imp]
    intro hsome
    by_contra hno
    exact hsome (closeRanges_of_none (if_neg hno))
  refine ⟨dir, dir :: rest, hdirectory, ?_, fun fd => ?_⟩
  · by_contra hsome
    exact hdir ((hall dir).mpr hsome)
  · rw [← hall fd, List.mem_cons, or_comm]

/-- The first call fails, for its bounds are not in order, and the walk follows. -/
theorem closeRangeFast_keeps_three :
    closeRangeFast ⟨fun _ _ => false, some (4, [4, 0, 1, 2, 3])⟩ (some 3) four.table =
      keptTable (some 3) four.table := by
  refine (closeRangeFast_keeps_iff four ?_ fun _ => ?_).mpr ?_
  · intro fd hfd
    rw [← Option.some.inj hfd]
    decide
  · exact readable_four rfl (by decide) (by decide)
  · intro kept hkept _ fd hlt hle
    rw [← Option.some.inj hkept] at hlt
    exact absurd (Int32.lt_of_lt_of_le hlt hle) (by decide)

/-- A kernel that has `close_range`; the walk opens its directory as 2. -/
def answering : CloseAnswers := ⟨fun _ _ => false, some (2, [2, 0, 1])⟩

/-- A kernel that has none. -/
def refusing : CloseAnswers := ⟨fun _ _ => true, some (4, [4, 0, 1, 2, 3])⟩

/-- With 1 to be kept, the second call closes 2, which the walk leaves open. -/
theorem standard_error_closed :
    four.table 1 ≠ none ∧
      Readable (closeRanges answering (some 1) four.table).1 answering.directory ∧
      Readable (closeRanges refusing (some 1) four.table).1 refusing.directory ∧
      closeRangeFast answering (some 1) four.table 2 = none ∧
      closeRangeFast refusing (some 1) four.table 2 = four.table 2 ∧
      closeRangeFast answering (some 1) four.table ≠ keptTable (some 1) four.table := by
  have hclosed : closeRangeFast answering (some 1) four.table 2 = none := by decide
  have hopen : keptTable (some 1) four.table 2 ≠ none := by decide
  refine ⟨by decide, ?_, ?_, hclosed, by decide, fun heq => ?_⟩
  · exact readable_four rfl (by decide) (by decide)
  · exact readable_four rfl (by decide) (by decide)
  · rw [← heq] at hopen
    exact hopen hclosed

end Closing

end CoreShift
