import Std.Data.TreeMap.Basic
import Std.Data.TreeMap.Lemmas
import BoundaryTag.Word

namespace BoundaryTag

/-- The bytes of an arena, as little-endian words by their index. A word that is not in the map is
    zero, so that a large reservation of zeros costs only the words that were touched. -/
structure Memory where
  words : Std.TreeMap Nat UInt64 := ∅

namespace Memory

def word (m : Memory) (index : Nat) : UInt64 := m.words.getD index 0

def setWord (m : Memory) (index : Nat) (word : UInt64) : Memory := ⟨m.words.insert index word⟩

def byte (m : Memory) (offset : Nat) : UInt8 := Word.byte (m.word (offset / 8)) (offset % 8)

def setByte (m : Memory) (offset : Nat) (byte : UInt8) : Memory :=
  m.setWord (offset / 8) (Word.setByte (m.word (offset / 8)) (offset % 8) byte)

/-- The word whose bytes start at `offset`. -/
def load (m : Memory) (offset : Nat) : UInt64 :=
  if offset % 8 = 0 then m.word (offset / 8)
  else Nat.fold 8 (fun k _ word => Word.setByte word k (m.byte (offset + k))) 0

def store (m : Memory) (offset : Nat) (word : UInt64) : Memory :=
  if offset % 8 = 0 then m.setWord (offset / 8) word
  else Nat.fold 8 (fun k _ m => m.setByte (offset + k) (Word.byte word k)) m

/-- Writes `f i` at `offset + i`, for each `i` in `places`. -/
def setBytes (m : Memory) (offset : Nat) (places : List Nat) (f : Nat → UInt8) : Memory :=
  places.foldl (fun m i => m.setByte (offset + i) (f i)) m

/-- Writes `f 0, …, f (count - 1)` from `offset` on. -/
def fill (m : Memory) (offset count : Nat) (f : Nat → UInt8) : Memory :=
  m.setBytes offset (List.range count) f

/-- The places below `count` whose bytes, from `start` on, lie in written words. -/
def written (m : Memory) (count start : Nat) : List Nat :=
  (m.words.keys.flatMap fun index => List.range' (8 * index) 8).filterMap fun offset =>
    if start ≤ offset ∧ offset < start + count then some (offset - start) else none

/-- The places below `count` where spans from the given starts can differ from zero. A span that
    is long beside the memory written so far is looked up in it; a short one is taken whole. -/
def support (m : Memory) (count : Nat) (starts : List Nat) : List Nat :=
  if 16 * m.words.size < count then starts.flatMap (m.written count) else List.range count

/-- Writes zeros. -/
def zero (m : Memory) (offset count : Nat) : Memory :=
  m.setBytes offset (m.support count [offset]) fun _ => 0

/-- Writes the bytes that were at `source` to `target`. -/
def copy (m : Memory) (source target count : Nat) : Memory :=
  m.setBytes target (m.support count [source, target]) fun i => m.byte (source + i)

theorem word_setWord (m : Memory) (index other : Nat) (word : UInt64) :
    (m.setWord index word).word other = if index = other then word else m.word other := by
  simp [Memory.word, setWord, Std.TreeMap.getD_insert]

theorem load_eq_word (m : Memory) {offset : Nat} (haligned : offset % 8 = 0) :
    m.load offset = m.word (offset / 8) :=
  if_pos haligned

theorem store_eq_setWord (m : Memory) {offset : Nat} (haligned : offset % 8 = 0) (word : UInt64) :
    m.store offset word = m.setWord (offset / 8) word :=
  if_pos haligned

theorem load_store (m : Memory) {offset other : Nat} (hoffset : offset % 8 = 0)
    (hother : other % 8 = 0) (word : UInt64) :
    (m.store offset word).load other = if offset = other then word else m.load other := by
  rw [store_eq_setWord m hoffset, load_eq_word _ hother, load_eq_word _ hother, word_setWord]
  have : offset / 8 = other / 8 ↔ offset = other := by omega
  simp only [this]

theorem byte_setByte (m : Memory) (offset other : Nat) (byte : UInt8) :
    (m.setByte offset byte).byte other = if offset = other then byte else m.byte other := by
  unfold Memory.setByte Memory.byte
  rw [word_setWord]
  by_cases hindex : offset / 8 = other / 8
  · have : other % 8 = offset % 8 ↔ offset = other := by omega
    rw [if_pos hindex, Word.byte_setByte _ (by omega) (by omega), hindex]
    simp only [this]
  · rw [if_neg hindex, if_neg (by omega)]

/-- A word is untouched by a byte written outside it. -/
theorem word_setByte_of_ne (m : Memory) {offset index : Nat} (hne : offset / 8 ≠ index)
    (byte : UInt8) : (m.setByte offset byte).word index = m.word index := by
  rw [setByte, word_setWord, if_neg hne]

theorem byte_setBytes (m : Memory) (offset other : Nat) (places : List Nat) (f : Nat → UInt8) :
    (m.setBytes offset places f).byte other =
      if offset ≤ other ∧ other - offset ∈ places then f (other - offset) else m.byte other := by
  unfold setBytes
  induction places generalizing m with
  | nil => simp
  | cons place rest ih =>
    rw [List.foldl_cons, ih, byte_setByte]
    by_cases hhere : offset + place = other
    · have : other - offset = place := by omega
      simp [hhere, this, show offset ≤ other by omega]
    · have : offset ≤ other → other - offset ≠ place := by omega
      grind

theorem byte_fill (m : Memory) (offset count other : Nat) (f : Nat → UInt8) :
    (m.fill offset count f).byte other =
      if offset ≤ other ∧ other < offset + count then f (other - offset) else m.byte other := by
  rw [fill, byte_setBytes]
  have : offset ≤ other ∧ other - offset ∈ List.range count ↔
      offset ≤ other ∧ other < offset + count := by
    rw [List.mem_range]
    omega
  simp only [this]

theorem byte_eq_zero_of_not_mem_written (m : Memory) {count start place : Nat}
    (hplace : place < count) (hwritten : place ∉ m.written count start) :
    m.byte (start + place) = 0 := by
  have hword : (start + place) / 8 ∉ m.words := by
    intro hmem
    apply hwritten
    refine List.mem_filterMap.2 ⟨start + place, ?_, by simp [hplace]⟩
    refine List.mem_flatMap.2 ⟨(start + place) / 8, Std.TreeMap.mem_keys.2 hmem, ?_⟩
    rw [List.mem_range'_1]
    omega
  rw [byte, word, Std.TreeMap.getD_eq_fallback hword]
  simp [Word.byte]

theorem lt_of_mem_support (m : Memory) {count place : Nat} {starts : List Nat}
    (hplace : place ∈ m.support count starts) : place < count := by
  grind [support, written]

theorem byte_eq_zero_of_not_mem_support (m : Memory) {count start place : Nat}
    {starts : List Nat} (hstart : start ∈ starts) (hplace : place < count)
    (hsupport : place ∉ m.support count starts) : m.byte (start + place) = 0 := by
  unfold support at hsupport
  split at hsupport
  · exact m.byte_eq_zero_of_not_mem_written hplace fun hwritten =>
      hsupport (List.mem_flatMap.2 ⟨start, hstart, hwritten⟩)
  · exact absurd (List.mem_range.2 hplace) hsupport

theorem byte_zero (m : Memory) (offset count other : Nat) :
    (m.zero offset count).byte other =
      if offset ≤ other ∧ other < offset + count then 0 else m.byte other := by
  rw [zero, byte_setBytes]
  have hlt := @lt_of_mem_support m count (other - offset) [offset]
  have hzero := @byte_eq_zero_of_not_mem_support m count offset (other - offset) [offset] (by simp)
  grind

theorem byte_copy (m : Memory) (source target count other : Nat) :
    (m.copy source target count).byte other =
      if target ≤ other ∧ other < target + count then m.byte (source + (other - target))
      else m.byte other := by
  rw [copy, byte_setBytes]
  have hlt := @lt_of_mem_support m count (other - target) [source, target]
  have hsource := @byte_eq_zero_of_not_mem_support m count source (other - target)
    [source, target] (by simp)
  have htarget := @byte_eq_zero_of_not_mem_support m count target (other - target)
    [source, target] (by simp)
  grind

end Memory

end BoundaryTag
