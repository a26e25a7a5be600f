import BoostBase.Order.Increasing

namespace BoostBase

/-- A built-in integer type; the one of one bit is `bool`. -/
structure IntegerType where
  signed : Bool
  bits : Nat
  size : bits ∈ [1, 8, 16, 32, 64]
  unsigned : bits = 1 → signed = false
  deriving DecidableEq

namespace IntegerType

def isBool (u : IntegerType) : Bool := u.bits = 1

def sizeT : IntegerType := ⟨false, 64, by decide, by decide⟩

def digits (u : IntegerType) : Nat := if u.signed then u.bits - 1 else u.bits

def min (u : IntegerType) : Int := if u.signed then -2 ^ u.digits else 0

def max (u : IntegerType) : Int := 2 ^ u.digits - 1

end IntegerType

/-- An enumeration: the values of its enumerators in its underlying type. -/
structure Enumeration where
  underlying : IntegerType
  enumerators : List Int
  fits : ∀ v ∈ enumerators, underlying.min ≤ v ∧ v ≤ underlying.max

namespace MagicEnum

def rangeMin : Int := 0

def rangeMax : Int := 255

def isValid (e : Enumeration) (v : Int) : Bool := v ∈ e.enumerators

def value (u : IntegerType) (o : Int) (isFlags : Bool) (i : Nat) : Int :=
  if u.isBool then i
  else if isFlags then 2 ^ ((i : Int) + o).toNat else (i : Int) + o

def reflectedMin (e : Enumeration) (isFlags : Bool) : Int :=
  if isFlags then 0
  else if e.underlying.min < rangeMin then rangeMin else e.underlying.min

def reflectedMax (e : Enumeration) (isFlags : Bool) : Int :=
  if isFlags then e.underlying.digits - 1
  else if rangeMax < e.underlying.max then rangeMax else e.underlying.max

def valuesOf (e : Enumeration) (isFlags : Bool) : List Int :=
  let rangeSize := (reflectedMax e isFlags - reflectedMin e isFlags + 1).toNat
  ((List.range rangeSize).map (value e.underlying (reflectedMin e isFlags) isFlags)).filter (isValid e)

def isFlagsEnum (e : Enumeration) : Bool :=
  if e.underlying.isBool then false
  else
  let flagsValues := valuesOf e true
  let defaultValues := valuesOf e false
  if flagsValues.length = 0 || flagsValues.length < defaultValues.length then false
  else if defaultValues.any fun v => v ≠ 0 && v.toNat &&& (v.toNat - 1) ≠ 0 then false
  else decide (0 < flagsValues.length)

def values (e : Enumeration) : List Int := valuesOf e (isFlagsEnum e)

def enumCount (e : Enumeration) : Nat := (values e).length

def minValue (e : Enumeration) : Int := (values e).headD 0

def maxValue (e : Enumeration) : Int := (values e).getLastD 0

def isSparse (e : Enumeration) : Bool :=
  let max := if isFlagsEnum e then ((maxValue e).toNat.log2 : Int) else maxValue e
  let min := if isFlagsEnum e then ((minValue e).toNat.log2 : Int) else minValue e
  max - min + 1 ≠ enumCount e && 0 < enumCount e

/-- The switch over the values of a page; `default`, and the cases that stand for no value, go on
    with the next page. -/
def constexprSwitch (values : List Int) (searched : Int) (page : Nat) : Option Nat :=
  match ((values.drop page).take 256).idxOf? searched with
  | some i => some (i + page)
  | none =>
    if more : 256 + page < values.length then constexprSwitch values searched (page + 256) else none
termination_by values.length - page
decreasing_by omega

def enumIndex (e : Enumeration) (v : Int) : Option Nat :=
  if enumCount e = 0 then none
  else if isSparse e || isFlagsEnum e then constexprSwitch (values e) v 0
  else if minValue e ≤ v ∧ v ≤ maxValue e then some (v - minValue e).toNat
  else none

/-- The first loop for the dead cases: the numbers after the last value. -/
def fillAfter (max : Int) : Nat → Int → List Int
  | 0, _ => []
  | room + 1, lastValue =>
    if lastValue = max then [] else (lastValue + 1) :: fillAfter max room (lastValue + 1)

/-- `result`, as far as it is filled. -/
def casesArray (filled : List Int) : List Int := filled ++ List.replicate (256 - filled.length) 0

/-- The loop over `it`. -/
def advance (result : List Int) (lastValue : Int) (it : Nat) : Int × Nat :=
  if same : result[it]? = some lastValue then advance result (lastValue + 1) (it + 1)
  else (lastValue, it)
termination_by result.length - it
decreasing_by
  obtain ⟨inside, -⟩ := List.getElem?_eq_some_iff.mp same
  omega

/-- The second loop: a number of the type that is not there yet. -/
def fillGaps : Nat → List Int → Int → Nat → List Int
  | 0, filled, _, _ => filled
  | room + 1, filled, lastValue, it =>
    let next := advance (casesArray filled) lastValue it
    fillGaps room (filled ++ [next.1]) next.1 next.2

/-- The type of what `constexpr_hash_t` gives for an enumerator. -/
def switchType (u : IntegerType) : IntegerType := if u.isBool then .sizeT else u

/-- The labels of the switch over a page of values. -/
def calculateCases (u : IntegerType) (values : List Int) (page : Nat) : List Int :=
  let hashes := (values.drop page).take 256
  let filled := hashes ++ fillAfter u.max (256 - hashes.length) (hashes.getLastD 0)
  fillGaps (256 - filled.length) filled u.min 0

/-- Of an enumeration with values `enum_index` asks whether it is sparse, and `log2` then counts up
    in the underlying type, which `bool` does not allow; and a switch with one label twice is no
    program. -/
def Compiles (e : Enumeration) : Prop :=
  0 < enumCount e → e.underlying.isBool = false ∧
    (isSparse e = true ∨ isFlagsEnum e = true →
      (calculateCases (switchType e.underlying) (values e) 0).Nodup)

variable {e : Enumeration}

theorem bits_of_not_bool {u : IntegerType} (wide : u.isBool = false) :
    u.bits = 8 ∨ u.bits = 16 ∨ u.bits = 32 ∨ u.bits = 64 := by
  have size := u.size
  simp only [List.mem_cons, List.not_mem_nil, or_false] at size
  exact size.resolve_left (of_decide_eq_false wide)

theorem digits_pos (u : IntegerType) : 1 ≤ u.digits := by
  have size := u.size
  simp only [List.mem_cons, List.not_mem_nil, or_false] at size
  unfold IntegerType.digits
  split
  · rename_i signed
    have : u.bits ≠ 1 := fun one => by simp [u.unsigned one] at signed
    omega
  · omega

theorem min_nonpos (u : IntegerType) : u.min ≤ 0 := by
  unfold IntegerType.min
  split
  · exact neg_nonpos.mpr (pow_nonneg (by decide) _)
  · exact Int.le_refl 0

theorem max_pos (u : IntegerType) : 1 ≤ u.max := by
  have grows : (2 : Int) ^ 1 ≤ 2 ^ u.digits := pow_le_pow_right₀ (by decide) (digits_pos u)
  unfold IntegerType.max
  omega

@[simp] theorem reflectedMin_eq (e : Enumeration) (isFlags : Bool) : reflectedMin e isFlags = 0 := by
  have low := min_nonpos e.underlying
  unfold reflectedMin rangeMin
  split
  · rfl
  · split
    · rfl
    · omega

theorem mem_values_flags (wide : e.underlying.isBool = false) {v : Int} :
    v ∈ valuesOf e true ↔ v ∈ e.enumerators ∧ ∃ k, v = 2 ^ k := by
  simp only [valuesOf, reflectedMin_eq, reflectedMax, value, wide, Bool.false_eq_true, if_false, List.mem_filter, List.mem_map,
    List.mem_range, isValid, decide_eq_true_eq, if_true, Int.add_zero, Int.toNat_natCast]
  constructor
  · rintro ⟨⟨k, -, rfl⟩, member⟩
    exact ⟨member, k, rfl⟩
  · rintro ⟨member, k, rfl⟩
    refine ⟨⟨k, ?_, rfl⟩, member⟩
    have below : (2 : Int) ^ k < 2 ^ e.underlying.digits := by
      have := (e.fits _ member).2
      unfold IntegerType.max at this
      omega
    have less : k < e.underlying.digits := (pow_lt_pow_iff_right₀ (by decide)).mp below
    omega

theorem reflectedMax_default (e : Enumeration) : reflectedMax e false = Min.min 255 e.underlying.max := by
  unfold reflectedMax rangeMax
  simp only [Bool.false_eq_true, if_false]
  split <;> omega

theorem mem_values_default {v : Int} :
    v ∈ valuesOf e false ↔ v ∈ e.enumerators ∧ 0 ≤ v ∧ v ≤ 255 := by
  have large := max_pos e.underlying
  simp only [valuesOf, reflectedMin_eq, reflectedMax_default, value, List.mem_filter, List.mem_map,
    List.mem_range, isValid, decide_eq_true_eq, Bool.false_eq_true, if_false, Int.add_zero, ite_self]
  constructor
  · rintro ⟨⟨k, inside, rfl⟩, member⟩
    exact ⟨member, Int.natCast_nonneg k, by omega⟩
  · rintro ⟨member, low, high⟩
    have fits := (e.fits v member).2
    exact ⟨⟨v.toNat, by omega, Int.toNat_of_nonneg low⟩, member⟩

theorem valuesOf_increasing (e : Enumeration) (isFlags : Bool) :
    (valuesOf e isFlags).Pairwise (· < ·) := by
  refine List.Pairwise.filter _ (List.pairwise_map.mpr (List.pairwise_lt_range.imp fun {i j} less => ?_))
  simp only [value, reflectedMin_eq, Int.add_zero, Int.toNat_natCast]
  split
  · exact Int.ofNat_lt.mpr less
  · split
    · exact pow_lt_pow_right₀ (by decide) less
    · exact Int.ofNat_lt.mpr less

theorem values_increasing (e : Enumeration) : (values e).Pairwise (· < ·) := valuesOf_increasing e _

theorem wide_of_isFlagsEnum (flags : isFlagsEnum e = true) : e.underlying.isBool = false := by
  unfold isFlagsEnum at flags
  split at flags
  · cases flags
  · exact Bool.eq_false_iff.mpr ‹_›

theorem fillAfter_eq (max : Int) (room : Nat) (lastValue : Int) (below : lastValue ≤ max) :
    fillAfter max room lastValue =
      (List.range (Min.min room (max - lastValue).toNat)).map fun i : Nat => lastValue + 1 + i := by
  induction room generalizing lastValue with
  | zero => simp [fillAfter]
  | succ room ih =>
    unfold fillAfter
    split
    · rename_i ended
      simp [ended]
    · rename_i more
      have count : Min.min (room + 1) (max - lastValue).toNat =
          Min.min room (max - (lastValue + 1)).toNat + 1 := by omega
      rw [ih (lastValue + 1) (by omega), count, List.range_succ_eq_map, List.map_cons, List.map_map]
      congr 1
      · simp
      · refine List.map_congr_left fun i _ => ?_
        simp only [Function.comp]
        push_cast
        omega

theorem advance_run {result : List Int} {lastValue : Int} {j : Nat} (it : Nat)
    (run : ∀ i, i < j → result[it + i]? = some (lastValue + i))
    (stops : result[it + j]? ≠ some (lastValue + j)) :
    advance result lastValue it = (lastValue + j, it + j) := by
  induction j generalizing lastValue it with
  | zero =>
    rw [advance, dif_neg (by simpa using stops)]
    simp
  | succ j ih =>
    have first : result[it]? = some lastValue := by simpa using run 0 (Nat.succ_pos j)
    have place (i : Nat) : it + 1 + i = it + (i + 1) := by omega
    have number (i : Nat) : lastValue + 1 + i = lastValue + (i + 1 : Nat) := by omega
    rw [advance, dif_pos first, ih (it + 1), place, number]
    · intro i before
      rw [place, number]
      exact run (i + 1) (Nat.succ_lt_succ before)
    · rw [place, number]
      exact stops

/-- Once the second loop has found a number it does not move on. -/
theorem fillGaps_stuck (room : Nat) {filled : List Int} {lastValue : Int} {it : Nat}
    (inside : it < filled.length) (stops : filled[it]? ≠ some lastValue) :
    fillGaps room filled lastValue it = filled ++ List.replicate room lastValue := by
  induction room generalizing filled with
  | zero => simp [fillGaps]
  | succ room ih =>
    have still : advance (casesArray filled) lastValue it = (lastValue, it) := by
      rw [advance, dif_neg]
      rwa [casesArray, List.getElem?_append_left inside]
    unfold fillGaps
    rw [still]
    dsimp only
    rw [ih (by rw [List.length_append]; omega) (by rwa [List.getElem?_append_left inside]),
      List.append_assoc, List.replicate_succ, List.singleton_append]

theorem width {u : IntegerType} (wide : u.isBool = false) : 255 ≤ u.max - u.min := by
  have size := bits_of_not_bool wide
  unfold IntegerType.max IntegerType.min
  split
  · rename_i signed
    have digits : 7 ≤ u.digits := by
      rw [IntegerType.digits, if_pos signed]
      omega
    have grows : (2 : Int) ^ 7 ≤ 2 ^ u.digits := pow_le_pow_right₀ (by decide) digits
    omega
  · rename_i unsigned
    have digits : 8 ≤ u.digits := by
      rw [IntegerType.digits, if_neg unsigned]
      omega
    have grows : (2 : Int) ^ 8 ≤ 2 ^ u.digits := pow_le_pow_right₀ (by decide) digits
    omega

section

variable {u : IntegerType} {hashes : List Int}

/-- What the first loop leaves behind: an increasing list that is full or goes up to the end of
    the type. -/
structure Filled (u : IntegerType) (hashes filled : List Int) (last : Int) : Prop where
  increasing : filled.Pairwise (· < ·)
  above : ∀ v ∈ filled, u.min ≤ v
  length : (filled.length : Int) = Min.min 256 (hashes.length + (u.max - last))
  ended : filled.length < 256 → u.max ∈ filled

theorem filled (increasing : hashes.Pairwise (· < ·)) (some : hashes ≠ []) (short : hashes.length ≤ 256)
    (fits : ∀ v ∈ hashes, u.min ≤ v ∧ v ≤ u.max) :
    Filled u hashes (hashes ++ fillAfter u.max (256 - hashes.length) (hashes.getLast some))
      (hashes.getLast some) := by
  have last := List.getLast_mem some
  have most (v : Int) (member : v ∈ hashes) : v ≤ hashes.getLast some := by
    obtain ⟨i, inside, rfl⟩ := List.getElem_of_mem member
    have apart := Increasing.gap increasing (show i ≤ hashes.length - 1 by omega) (by omega)
    rw [List.getLast_eq_getElem]
    omega
  have below := (fits _ last).2
  rw [fillAfter_eq _ _ _ below]
  refine ⟨?_, fun v member => ?_, ?_, fun room => ?_⟩
  · refine List.pairwise_append.mpr ⟨increasing, ?_, fun v before w after => ?_⟩
    · exact List.pairwise_map.mpr (List.pairwise_lt_range.imp fun less => by omega)
    · obtain ⟨i, -, rfl⟩ := List.mem_map.mp after
      have := most v before
      omega
  · rcases List.mem_append.mp member with before | after
    · exact (fits v before).1
    · obtain ⟨i, -, rfl⟩ := List.mem_map.mp after
      have := (fits _ last).1
      omega
  · rw [List.length_append, List.length_map, List.length_range]
    push_cast
    omega
  · rw [List.length_append, List.length_map, List.length_range] at room
    rcases below.lt_or_eq with more | same
    · refine List.mem_append.mpr (.inr (List.mem_map.mpr
        ⟨(u.max - hashes.getLast some).toNat - 1, List.mem_range.mpr (by omega), by omega⟩))
    · exact List.mem_append.mpr (.inl (same ▸ last))

/-- The switch compiles if and only if it has one dead case at most that the numbers after the last
    value do not provide for: the second loop takes the same number for all of them. -/
theorem calculateCases_nodup_iff (wide : u.isBool = false) (increasing : hashes.Pairwise (· < ·)) (some : hashes ≠ [])
    (short : hashes.length ≤ 256) (fits : ∀ v ∈ hashes, u.min ≤ v ∧ v ≤ u.max) :
    (calculateCases u hashes 0).Nodup ↔ 255 ≤ hashes.length + (u.max - hashes.getLast some) := by
  have known := filled increasing some short fits
  have cases : calculateCases u hashes 0 =
      fillGaps (256 - (hashes ++ fillAfter u.max (256 - hashes.length) (hashes.getLast some)).length)
        (hashes ++ fillAfter u.max (256 - hashes.length) (hashes.getLast some)) u.min 0 := by
    have page : (hashes.drop 0).take 256 = hashes := by
      rw [List.drop_zero, List.take_of_length_le short]
    rw [calculateCases, page, List.getLastD_eq_getLast?, List.getLast?_eq_some_getLast some,
      Option.getD_some]
  rw [cases]
  generalize hashes ++ fillAfter u.max (256 - hashes.length) (hashes.getLast some) = filled at known
  have length := known.length
  by_cases full : 256 ≤ filled.length
  · rw [Nat.sub_eq_zero_of_le full, fillGaps]
    exact iff_of_true (Increasing.nodup known.increasing) (by omega)
  · have ended := known.ended (Nat.not_le.mp full)
    obtain ⟨j, bound, run, free⟩ := Increasing.exists_first_gap known.increasing known.above
    have inside : j < filled.length := by
      -- the numbers from the first of the type to the last do not fit
      refine bound.lt_of_ne fun all => ?_
      obtain ⟨i, within, last⟩ := List.getElem_of_mem ended
      rw [run i within (all ▸ within)] at last
      have := width wide
      omega
    have stops : filled[j]? ≠ Option.some (u.min + j) := by
      rw [List.getElem?_eq_getElem inside, ne_eq, Option.some.injEq]
      exact (free inside).ne'
    have found : advance (casesArray filled) u.min 0 = (u.min + j, 0 + j) := by
      refine advance_run 0 (fun i before => ?_) ?_
      · rw [Nat.zero_add, casesArray, List.getElem?_append_left (before.trans inside),
          List.getElem?_eq_getElem (before.trans inside), run i (before.trans inside) before]
      · rwa [Nat.zero_add, casesArray, List.getElem?_append_left inside]
    rw [Nat.zero_add] at found
    obtain ⟨room, rest⟩ : ∃ room, 256 - filled.length = room + 1 := ⟨255 - filled.length, by omega⟩
    have absent := Increasing.first_gap_free known.increasing bound run free
    have stuck : fillGaps room (filled ++ [u.min + j]) (u.min + j) j = _ :=
      fillGaps_stuck room (by rw [List.length_append]; omega) (by rwa [List.getElem?_append_left inside])
    rw [rest, fillGaps, found]
    dsimp only
    rw [stuck, List.append_assoc, List.singleton_append, ← List.replicate_succ, List.nodup_append]
    constructor
    · rintro ⟨-, copies, -⟩
      have := List.nodup_replicate.mp copies
      omega
    · intro enough
      refine ⟨Increasing.nodup known.increasing, List.nodup_replicate.mpr (by omega), fun v before w copy => ?_⟩
      rw [List.eq_of_mem_replicate copy]
      rintro rfl
      exact absent before

end

theorem mem_values {v : Int} (member : v ∈ values e) : v ∈ e.enumerators ∧ 0 ≤ v := by
  unfold values at member
  cases flags : isFlagsEnum e with
  | true =>
    rw [flags] at member
    obtain ⟨enumerator, k, rfl⟩ := (mem_values_flags (wide_of_isFlagsEnum flags)).mp member
    exact ⟨enumerator, pow_nonneg (by decide) k⟩
  | false =>
    rw [flags] at member
    obtain ⟨enumerator, low, -⟩ := mem_values_default.mp member
    exact ⟨enumerator, low⟩

theorem values_length (e : Enumeration) : (values e).length ≤ 256 := by
  have size := e.underlying.size
  simp only [List.mem_cons, List.not_mem_nil, or_false] at size
  have bits : e.underlying.digits ≤ 64 := by
    unfold IntegerType.digits
    split <;> omega
  refine (List.length_filter_le _ _).trans ?_
  rw [List.length_map, List.length_range, reflectedMin_eq]
  cases isFlagsEnum e with
  | true =>
    simp only [reflectedMax, if_true]
    omega
  | false =>
    rw [reflectedMax_default]
    omega

theorem room_after (wide : 16 ≤ e.underlying.bits) {v : Int} (member : v ∈ values e) :
    255 ≤ e.underlying.max - v := by
  have digits : 15 ≤ e.underlying.digits := by
    unfold IntegerType.digits
    split <;> omega
  obtain ⟨d, same⟩ : ∃ d, e.underlying.digits = d + 1 := ⟨e.underlying.digits - 1, by omega⟩
  have half : (2 : Int) ^ 14 ≤ 2 ^ d := pow_le_pow_right₀ (by decide) (by omega)
  have double : (2 : Int) ^ (d + 1) = 2 ^ d * 2 := pow_succ 2 d
  unfold values at member
  cases flags : isFlagsEnum e with
  | true =>
    rw [flags] at member
    obtain ⟨enumerator, k, rfl⟩ := (mem_values_flags (wide_of_isFlagsEnum flags)).mp member
    have fits := (e.fits _ enumerator).2
    rw [IntegerType.max, same] at fits ⊢
    have less : k < d + 1 := (pow_lt_pow_iff_right₀ (show (1 : Int) < 2 by decide)).mp (by omega)
    have bound : (2 : Int) ^ k ≤ 2 ^ d := pow_le_pow_right₀ (by decide) (by omega)
    omega
  | false =>
    rw [flags] at member
    have small := (mem_values_default.mp member).2.2
    rw [IntegerType.max, same]
    omega

theorem switch_nodup_iff (wide : e.underlying.isBool = false) (filled : 0 < enumCount e) :
    (calculateCases (switchType e.underlying) (values e) 0).Nodup ↔
      16 ≤ e.underlying.bits ∨ e.underlying.signed = false ∧ maxValue e ≤ enumCount e := by
  have some : values e ≠ [] := List.ne_nil_of_length_pos filled
  have last : maxValue e = (values e).getLast some := by
    rw [maxValue, List.getLastD_eq_getLast?, List.getLast?_eq_some_getLast some, Option.getD_some]
  have member := List.getLast_mem some
  have increasing := values_increasing e
  rw [switchType, if_neg (Bool.eq_false_iff.mp wide),
    calculateCases_nodup_iff wide increasing some (values_length e)
      fun v inside => e.fits v (mem_values inside).1, last, enumCount]
  rcases Nat.lt_or_ge e.underlying.bits 16 with narrow | broad
  · have eight : e.underlying.bits = 8 := by
      have size := bits_of_not_bool wide
      omega
    have few : ((values e).length : Int) ≤ (values e).getLast some + 1 := by
      have first := (mem_values (List.getElem_mem filled)).2
      have apart := Increasing.gap increasing (Nat.zero_le ((values e).length - 1))
        (Nat.sub_lt filled Nat.one_pos)
      rw [List.getLast_eq_getElem]
      unfold enumCount at filled
      omega
    rw [IntegerType.max, IntegerType.digits, eight]
    cases e.underlying.signed with
    | true =>
      refine iff_of_false (fun enough => ?_) (by simp)
      simp only [if_true, Nat.reduceSub, Int.reducePow] at enough
      omega
    | false =>
      simp only [Bool.false_eq_true, if_false, Int.reducePow, Nat.reduceLeDiff, false_or, true_and]
      omega
  · have room := room_after broad member
    exact iff_of_true (by omega) (.inl broad)

/-- `enum_index` compiles for an enumeration with values if and only if the underlying type is not
    `bool` and, where it takes a switch, is of more than eight bits, or unsigned and there are not
    two gaps. -/
theorem compiles_iff (e : Enumeration) : Compiles e ↔
    (0 < enumCount e → e.underlying.isBool = false ∧
      (isSparse e = true ∨ isFlagsEnum e = true →
        16 ≤ e.underlying.bits ∨ e.underlying.signed = false ∧ maxValue e ≤ enumCount e)) := by
  refine forall_congr' fun filled => and_congr_right fun wide => forall_congr' fun _ => ?_
  exact switch_nodup_iff wide filled

end MagicEnum

end BoostBase
