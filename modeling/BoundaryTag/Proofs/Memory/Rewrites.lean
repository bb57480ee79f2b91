import BoundaryTag.Memory

namespace BoundaryTag.Memory

/-- Every aligned word is as it was, or `allowed` lets it have the value it has now. All tags and
    links are aligned words. -/
def Rewrites (m after : Memory) (allowed : Nat → UInt64 → Prop) : Prop :=
  ∀ offset, offset % 8 = 0 →
    after.load offset = m.load offset ∨ allowed offset (after.load offset)

variable {m middle after : Memory} {allowed wider : Nat → UInt64 → Prop}

theorem Rewrites.refl (m : Memory) (allowed : Nat → UInt64 → Prop) : m.Rewrites m allowed :=
  fun _ _ => .inl rfl

theorem Rewrites.trans (hfirst : m.Rewrites middle allowed)
    (hsecond : middle.Rewrites after allowed) : m.Rewrites after allowed := by
  intro offset haligned
  rcases hsecond offset haligned with hkept | hallowed
  · rw [hkept]
    exact hfirst offset haligned
  · exact .inr hallowed

theorem Rewrites.mono (h : m.Rewrites after allowed)
    (hwider : ∀ offset word, allowed offset word → wider offset word) :
    m.Rewrites after wider :=
  fun offset haligned => (h offset haligned).imp_right (hwider offset _)

theorem Rewrites.load_eq (h : m.Rewrites after allowed) {offset : Nat}
    (haligned : offset % 8 = 0) (hnot : ∀ word, ¬ allowed offset word) :
    after.load offset = m.load offset :=
  (h offset haligned).resolve_right (hnot _)

theorem rewrites_store (m : Memory) {offset : Nat} (haligned : offset % 8 = 0) (word : UInt64) :
    m.Rewrites (m.store offset word) fun other value => other = offset ∧ value = word := by
  intro other hother
  rw [load_store m haligned hother]
  split
  · exact .inr ⟨(‹offset = other›).symm, rfl⟩
  · exact .inl rfl

theorem word_setBytes_of_outside (m : Memory) {offset index : Nat} {places : List Nat}
    (hplaces : ∀ place ∈ places, (offset + place) / 8 ≠ index) (f : Nat → UInt8) :
    (m.setBytes offset places f).word index = m.word index := by
  unfold setBytes
  induction places generalizing m with
  | nil => rfl
  | cons place rest ih =>
    rw [List.foldl_cons, ih _ fun i hi => hplaces i (List.mem_cons_of_mem _ hi)]
    exact m.word_setByte_of_ne (hplaces place List.mem_cons_self) _

/-- A change of bytes touches the words that reach into its span. -/
theorem rewrites_setBytes (m : Memory) {offset count : Nat} {places : List Nat}
    (hplaces : ∀ place ∈ places, place < count) (f : Nat → UInt8) :
    m.Rewrites (m.setBytes offset places f)
      fun other _ => other % 8 = 0 ∧ offset < other + 8 ∧ other < offset + count := by
  intro other haligned
  by_cases hspan : offset < other + 8 ∧ other < offset + count
  · exact .inr ⟨haligned, hspan⟩
  · left
    rw [load_eq_word _ haligned, load_eq_word _ haligned]
    apply word_setBytes_of_outside
    intro place hplace
    have := hplaces place hplace
    omega

theorem rewrites_fill (m : Memory) (offset count : Nat) (f : Nat → UInt8) :
    m.Rewrites (m.fill offset count f)
      fun other _ => other % 8 = 0 ∧ offset < other + 8 ∧ other < offset + count :=
  m.rewrites_setBytes (fun _ hplace => List.mem_range.1 hplace) f

theorem rewrites_zero (m : Memory) (offset count : Nat) :
    m.Rewrites (m.zero offset count)
      fun other _ => other % 8 = 0 ∧ offset < other + 8 ∧ other < offset + count :=
  m.rewrites_setBytes (fun _ hplace => m.lt_of_mem_support hplace) _

theorem rewrites_copy (m : Memory) (source target count : Nat) :
    m.Rewrites (m.copy source target count)
      fun other _ => other % 8 = 0 ∧ target < other + 8 ∧ other < target + count :=
  m.rewrites_setBytes (fun _ hplace => m.lt_of_mem_support hplace) _

/-- A byte is read from the aligned word it lies in. -/
theorem byte_eq_of_load_eq {offset : Nat}
    (hload : after.load (offset / 8 * 8) = m.load (offset / 8 * 8)) :
    after.byte offset = m.byte offset := by
  have haligned : offset / 8 * 8 % 8 = 0 := by omega
  have hindex : offset / 8 * 8 / 8 = offset / 8 := by omega
  rw [load_eq_word _ haligned, load_eq_word _ haligned, hindex] at hload
  rw [byte, byte, hload]

end BoundaryTag.Memory
