import BoundaryTag.Pool.Fit
import BoundaryTag.Proofs.Pool.Tidy
import BoundaryTag.Proofs.SizeClass

namespace BoundaryTag

/-- One of the blocks has `size` bytes and is this one. -/
def HasRoom (blocks : List BlockInfo) (size : Nat) (block : Block) : Prop :=
  ∃ info ∈ blocks, info.block = block ∧ size ≤ info.size

/-- What a search for a block that fits answers: the first among the first `limit` blocks of one
    list, else the head of the lowest list above that has one. -/
inductive Chains.Finds (chains : Chains) (sizeClass : SizeClass) (limit : Nat)
    (fits : Block → Prop) : Option Block → Prop
  | scanned {front rest : List Block} {block : Block} :
    chains sizeClass = front ++ block :: rest → front.length < limit →
    (∀ other ∈ front, ¬ fits other) → fits block → Finds chains sizeClass limit fits (some block)
  | escalated {above : SizeClass} {block : Block} :
    (∀ other ∈ (chains sizeClass).take limit, ¬ fits other) → sizeClass < above →
    (∀ between, sizeClass < between → between < above → chains between = []) →
    (chains above).head? = some block → Finds chains sizeClass limit fits (some block)
  | exhausted :
    (∀ other ∈ (chains sizeClass).take limit, ¬ fits other) →
    (∀ above, sizeClass < above → chains above = []) → Finds chains sizeClass limit fits none

/-- A block of the class of `size` that stands so far behind in its list that a search does not look
    at it. -/
def Chains.Hides (chains : Chains) (size : Nat) (info : BlockInfo) : Prop :=
  SizeClass.ofSize info.size = SizeClass.ofSize size ∧ ∃ front rest,
    chains (SizeClass.ofSize size) = front ++ info.block :: rest ∧ scanDepth ≤ front.length

/-- What a search for `size` bytes finds, and that it leaves out no block that would do but for
    hidden ones. -/
structure Pool.Searches (pool : Pool) (blocks : List BlockInfo) (chains : Chains) (size : Nat)
    (found : Option Block) : Prop where
  fit?_eq : pool.fit? size = .ok found
  finds : chains.Finds (SizeClass.ofSize size) scanDepth (HasRoom blocks size) found
  listed : ∀ block ∈ found, ∃ info ∈ blocks, info.block = block ∧ info.allocated = false ∧
    size ≤ info.size ∧ info.block ∈ chains (SizeClass.ofSize info.size)
  hides : found = none → ∀ info ∈ blocks, info.allocated = false → size ≤ info.size →
    chains.Hides size info

namespace Chains

variable {chains : Chains} {sizeClass : SizeClass} {limit : Nat} {fits : Block → Prop}

/-- A block that is found at the head of a list stands near its head in the whole of it. -/
theorem exists_of_find?_take {l : List Block} {p : Block → Bool} {block : Block}
    (h : (l.take limit).find? p = some block) : p block = true ∧
      ∃ front rest, l = front ++ block :: rest ∧ front.length < limit ∧
        ∀ other ∈ front, p other = false := by
  obtain ⟨hblock, front, rest, hsplit, hfront⟩ := List.find?_eq_some_iff_append.1 h
  have hlength := List.length_take_le limit l
  rw [hsplit, List.length_append, List.length_cons] at hlength
  refine ⟨hblock, front, rest ++ l.drop limit, ?_, by omega, by simpa using hfront⟩
  rw [← List.cons_append, ← List.append_assoc, ← hsplit, List.take_append_drop]

theorem finds_of_find? {p : Block → Bool}
    (hp : ∀ block ∈ chains sizeClass, p block = true ↔ fits block) :
    chains.Finds sizeClass limit fits
      ((((chains sizeClass).take limit).find? p).or
        (((List.finRange classCount).drop (sizeClass + 1)).findSome? fun c =>
          (chains c).head?)) := by
  cases hscan : ((chains sizeClass).take limit).find? p with
  | some block =>
    obtain ⟨hblock, front, rest, hsplit, hlength, hfront⟩ := exists_of_find?_take hscan
    have hmem : ∀ other, other ∈ front ∨ other = block → other ∈ chains sizeClass := by
      rw [hsplit]
      simp +contextual [or_imp]
    have hfits := (hp _ (hmem _ (.inr rfl))).1 hblock
    refine .scanned hsplit hlength (fun other hother hfits => ?_) hfits
    have hother' := (hp _ (hmem _ (.inl hother))).2 hfits
    rw [hfront other hother] at hother'
    cases hother'
  | none =>
    have hnone : ∀ other ∈ (chains sizeClass).take limit, ¬ fits other := fun other hother hfits =>
      List.find?_eq_none.1 hscan other hother ((hp _ (List.mem_of_mem_take hother)).2 hfits)
    rw [Option.none_or]
    cases hsearch : ((List.finRange classCount).drop (sizeClass + 1)).findSome? fun c =>
        (chains c).head? with
    | none =>
      refine .exhausted hnone fun above habove => List.head?_eq_none_iff.1 ?_
      exact List.findSome?_eq_none_iff.1 hsearch above (mem_drop_finRange.2 habove)
    | some block =>
      obtain ⟨above, habove, hhead, hlower⟩ := exists_lowest_of_findSome? hsearch
      refine .escalated hnone habove (fun between hlow hlt => ?_) hhead
      exact List.head?_eq_none_iff.1 (hlower between hlow hlt)

end Chains

namespace FreeIndex.Threads

variable {index : FreeIndex} {a : Arena} {chains : Chains}

/-- The scan of a list finds the first fit among its first `limit` blocks. -/
theorem firstFit?_eq (h : index.Threads a chains) {sizeClass : SizeClass} {front rest : List Block}
    (hsplit : chains sizeClass = front ++ rest) (size limit : Nat) :
    a.firstFit? size limit rest.head? =
      .ok ((rest.take limit).find? fun block => size ≤ a.memory.sizeAt block) := by
  induction limit generalizing front rest with
  | zero => simp [Arena.firstFit?]
  | succ limit ih =>
    cases rest with
    | nil => simp [Arena.firstFit?]
    | cons block rest =>
      have hmem : block ∈ chains sizeClass := by simp [hsplit]
      have hnext : chains sizeClass = (front ++ [block]) ++ rest := by simp [hsplit]
      have hstep := ih hnext
      rw [List.head?_cons, Arena.firstFit?, h.link_eq hsplit, ok_bind, h.header_eq hmem, ok_bind,
        List.take_succ_cons, List.find?_cons]
      change (if size ≤ a.memory.sizeAt block then _ else _) = _
      by_cases hfit : size ≤ a.memory.sizeAt block
      · simp [hfit]
      · simp [hfit, hstep]

end FreeIndex.Threads

namespace Pool.Represents

variable {pool : Pool} {blocks : List BlockInfo} {chains : Chains} {info : BlockInfo}

theorem sizeAt_eq (h : pool.Represents blocks chains) (hinfo : info ∈ blocks) :
    pool.arena.memory.sizeAt info.block = info.size := by
  have hfits := h.laid.fits hinfo
  rw [Memory.sizeAt, (h.laid.tagged info hinfo).header hfits]
  exact hfits.size_tag

/-- The first fit at the head of the list of the size's class, else the first block of the next list
    above that has any. -/
theorem fit?_eq (h : pool.Represents blocks chains) (size : Nat) :
    pool.fit? size = .ok
      ((((chains (SizeClass.ofSize size)).take scanDepth).find? fun block =>
          size ≤ pool.arena.memory.sizeAt block).or
        (((List.finRange classCount).drop (SizeClass.ofSize size + 1)).findSome? fun c =>
          (chains c).head?)) := by
  have hscan := h.threads.firstFit?_eq (chains (SizeClass.ofSize size)).nil_append.symm size
    scanDepth
  rw [← h.threads.head_eq_some] at hscan
  rw [Pool.fit?, hscan, ok_bind]
  cases ((chains (SizeClass.ofSize size)).take scanDepth).find? fun block =>
      size ≤ pool.arena.memory.sizeAt block with
  | some block => rfl
  | none => exact h.threads.headAbove_eq _ _

/-- A search whose class has a block at its head that is large enough looks no further. -/
theorem fit?_of_head (h : pool.Represents blocks chains) (hinfo : info ∈ blocks) {size : Nat}
    {others : List Block} (hhead : chains (SizeClass.ofSize size) = info.block :: others)
    (hle : size ≤ info.size) : pool.fit? size = .ok (some info.block) := by
  have hlarge : size ≤ pool.arena.memory.sizeAt info.block := by rwa [h.sizeAt_eq hinfo]
  rw [h.fit?_eq, hhead, scanDepth, List.take_succ_cons, List.find?_cons_of_pos (by simpa)]
  rfl

theorem hasRoom_iff (h : pool.Represents blocks chains) {sizeClass : SizeClass} {block : Block}
    (hblock : block ∈ chains sizeClass) (size : Nat) :
    size ≤ pool.arena.memory.sizeAt block ↔ HasRoom blocks size block := by
  constructor
  · intro hle
    obtain ⟨info, hinfo, rfl, -⟩ := h.listed hblock
    exact ⟨info, hinfo, rfl, h.sizeAt_eq hinfo ▸ hle⟩
  · rintro ⟨info, hinfo, rfl, hle⟩
    rwa [h.sizeAt_eq hinfo]

/-- The search answers, and what it answers is found as described. -/
theorem fit?_finds (h : pool.Represents blocks chains) (size : Nat) :
    ∃ found, pool.fit? size = .ok found ∧
      chains.Finds (SizeClass.ofSize size) scanDepth (HasRoom blocks size) found := by
  refine ⟨_, h.fit?_eq size, Chains.finds_of_find? fun block hblock => ?_⟩
  rw [decide_eq_true_iff, h.hasRoom_iff hblock]

/-- What a search finds is a listed free block that is large enough. -/
theorem exists_of_finds (h : pool.Represents blocks chains) {size limit : Nat} {block : Block}
    (hfound : chains.Finds (SizeClass.ofSize size) limit (HasRoom blocks size) (some block)) :
    ∃ info ∈ blocks, info.block = block ∧ info.allocated = false ∧ size ≤ info.size ∧
      info.block ∈ chains (SizeClass.ofSize info.size) := by
  cases hfound with
  | @scanned front rest _ hsplit _ _ hroom =>
    have hmem : block ∈ chains (SizeClass.ofSize size) := by simp [hsplit]
    have hlarge := (h.hasRoom_iff hmem size).2 hroom
    obtain ⟨info, hinfo, rfl, hfree, hclass⟩ := h.listed hmem
    exact ⟨info, hinfo, rfl, hfree, h.sizeAt_eq hinfo ▸ hlarge, hclass ▸ hmem⟩
  | escalated _ habove _ hhead =>
    have hmem := List.mem_of_mem_head? hhead
    obtain ⟨info, hinfo, rfl, hfree, rfl⟩ := h.listed hmem
    exact ⟨info, hinfo, rfl, hfree, (SizeClass.lt_of_ofSize_lt habove).le, hmem⟩

end Pool.Represents

namespace Pool.Orderly

variable {pool : Pool} {blocks : List BlockInfo} {chains : Chains} {info : BlockInfo}

/-- A search that finds nothing leaves out no blocks but hidden ones. -/
theorem hides_of_exhausted (h : pool.Orderly blocks chains) {size : Nat}
    (hnone : chains.Finds (SizeClass.ofSize size) scanDepth (HasRoom blocks size) none)
    (hinfo : info ∈ blocks) (hfree : info.allocated = false) (hlarge : size ≤ info.size) :
    chains.Hides size info := by
  cases hnone with
  | exhausted hscan hempty =>
    have hmem := h.tidy.listed info hinfo hfree
    have hclass : SizeClass.ofSize info.size = SizeClass.ofSize size := by
      refine (SizeClass.ofSize_mono hlarge).eq_or_lt.elim Eq.symm fun hlt => ?_
      rw [hempty _ hlt] at hmem
      cases hmem
    rw [hclass] at hmem
    obtain ⟨front, rest, hsplit⟩ := List.append_of_mem hmem
    refine ⟨hclass, front, rest, hsplit, Nat.le_of_not_lt fun hnear => ?_⟩
    have htake : info.block ∈ (chains (SizeClass.ofSize size)).take scanDepth := by
      rw [hsplit, List.take_append, List.take_cons (by omega)]
      simp
    exact hscan _ htake ⟨info, hinfo, rfl, hlarge⟩

theorem searches (h : pool.Orderly blocks chains) (size : Nat) :
    ∃ found, pool.Searches blocks chains size found := by
  obtain ⟨found, hfit, hfinds⟩ := h.represents.fit?_finds size
  refine ⟨found, hfit, hfinds, ?_, ?_⟩
  · rintro block rfl
    exact h.represents.exists_of_finds hfinds
  · rintro rfl info hinfo hfree hlarge
    exact h.hides_of_exhausted hfinds hinfo hfree hlarge

end Pool.Orderly

end BoundaryTag
