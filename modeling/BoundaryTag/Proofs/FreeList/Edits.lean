import BoundaryTag.Proofs.FreeList.Index

namespace BoundaryTag

inductive FreeIndex.Edit where
  | insert (block : Block)
  | erase (block : Block)
  | clear
deriving DecidableEq, Repr

namespace FreeIndex

def edit (index : FreeIndex) (a : Arena) : Edit → Except Fault (FreeIndex × Arena)
  | .insert block => index.insert a block
  | .erase block => index.erase a block
  | .clear => .ok (index.clear, a)

/-- Makes edits one after the other, in the arena that the one before has left. -/
def editAll (index : FreeIndex) (a : Arena) : List Edit → Except Fault (FreeIndex × Arena)
  | [] => .ok (index, a)
  | first :: rest => do
    let (index, a) ← index.edit a first
    index.editAll a rest

end FreeIndex

namespace Chains

/-- What an edit does to the lists, if `size` gives the sizes of the blocks. -/
def edit (chains : Chains) (size : Block → Nat) : FreeIndex.Edit → Chains
  | .insert block => chains.push (SizeClass.ofSize (size block)) block
  | .erase block => fun sizeClass => (chains sizeClass).erase block
  | .clear => fun _ => []

def editAll (chains : Chains) (size : Block → Nat) (edits : List FreeIndex.Edit) : Chains :=
  edits.foldl (fun chains edit => chains.edit size edit) chains

/-- Only blocks out of `blocks` that are not listed come in, and only listed ones go out. -/
def Admits (chains : Chains) (blocks : Block → Prop) : FreeIndex.Edit → Prop
  | .insert block => blocks block ∧ block ∉ chains.members
  | .erase block => block ∈ chains.members
  | .clear => True

def AdmitsAll (chains : Chains) (blocks : Block → Prop) (size : Block → Nat) :
    List FreeIndex.Edit → Prop
  | [] => True
  | first :: rest =>
    chains.Admits blocks first ∧ (chains.edit size first).AdmitsAll blocks size rest

end Chains

/-- The blocks lie in the arena without overlap, each with its size in its header. What else the
    headers say is of no account. -/
structure Arena.Hosts (a : Arena) (blocks : Block → Prop) : Prop where
  short : a.len < UInt64.size
  aligned : ∀ {block}, blocks block → block.offset % 8 = 0
  size_ge : ∀ {block}, blocks block → 32 ≤ a.memory.sizeAt block
  inside : ∀ {block}, blocks block → block.offset - 8 + a.memory.sizeAt block ≤ a.len
  apart : ∀ {b c}, blocks b → blocks c → b ≠ c →
    b.offset + a.memory.sizeAt b ≤ c.offset ∨ c.offset + a.memory.sizeAt c ≤ b.offset

/-- All that the index can be asked is answered as the lists have it: what an iteration yields, the
    heads, whether there is any block, the search above a class, and both links of every block. -/
structure FreeIndex.Mirrors (index : FreeIndex) (a : Arena) (chains : Chains) : Prop where
  listFrom : ∀ (sizeClass : SizeClass) (limit : Nat),
    a.listFrom limit (index.head sizeClass) = .ok ((chains sizeClass).take limit)
  head : ∀ sizeClass : SizeClass, index.head sizeClass = (chains sizeClass).head?
  isEmpty : index.isEmpty = true ↔ ∀ sizeClass, chains sizeClass = []
  headAbove : ∀ (build : Build) (sizeClass : SizeClass), index.headAbove build sizeClass =
    .ok (((List.finRange classCount).drop (sizeClass + 1)).findSome? fun c => (chains c).head?)
  link : ∀ sizeClass front block rest, chains sizeClass = front ++ block :: rest →
    a.link block = .ok ⟨front.getLast?, rest.head?⟩

namespace FreeIndex

variable {index : FreeIndex} {a : Arena} {chains : Chains}

theorem Threads.mirrors (h : index.Threads a chains) : index.Mirrors a chains where
  listFrom := h.listFrom_head_eq
  head := h.head_eq_some
  isEmpty := index.isEmpty_iff.trans <| forall_congr' fun sizeClass => by
    rw [h.head_eq_some, List.head?_eq_none_iff]
  headAbove := h.headAbove_eq
  link _ _ _ _ := h.link_eq

end FreeIndex

namespace Arena.Hosts

variable {a : Arena} {blocks : Block → Prop} {block : Block}

theorem spaced (h : a.Hosts blocks) : Block.Spaced blocks where
  aligned := h.aligned
  apart {b c} hb hc heq := by
    have hb32 := h.size_ge hb
    have hc32 := h.size_ge hc
    have hne : b ≠ c := by
      rintro rfl
      omega
    have := h.apart hb hc hne
    omega

theorem offset_ge (h : a.Hosts blocks) (hblock : blocks block) : 8 ≤ block.offset := by
  have hpos := block.offset_pos
  have haligned := h.aligned hblock
  omega

theorem room (h : a.Hosts blocks) (hblock : blocks block) : block.offset + 16 ≤ a.len := by
  have hlow := h.offset_ge hblock
  have hsize := h.size_ge hblock
  have hinside := h.inside hblock
  omega

/-- No block has a link where another one, or it itself, has its header. -/
theorem not_hasLinkAt_header (h : a.Hosts blocks) (hblock : blocks block) {other : Block}
    (hother : blocks other) : ¬ other.HasLinkAt (block.offset - 8) := by
  have hlow := h.offset_ge hblock
  have hsize := h.size_ge hblock
  have hothersize := h.size_ge hother
  by_cases heq : other = block
  · subst heq
    rintro (hlink | hlink) <;> omega
  · have hapart := h.apart hother hblock heq
    rintro (hlink | hlink) <;> omega

end Arena.Hosts

namespace FreeIndex

variable {index : FreeIndex} {a : Arena} {blocks : Block → Prop} {chains : Chains}
  {memory : Memory} {made edits : List Edit}

/-- Where the edits made so far have led from arena `a`: the index holds the lists, their blocks
    have come in at some time, and only links of such blocks have been written. -/
structure Follows (index : FreeIndex) (a : Arena) (blocks : Block → Prop) (made : List Edit)
    (chains : Chains) (memory : Memory) : Prop where
  threads : index.Threads { a with memory } chains
  class_eq : ∀ {sizeClass block}, block ∈ chains sizeClass →
    SizeClass.ofSize (a.memory.sizeAt block) = sizeClass
  listed : ∀ block ∈ chains.members, .insert block ∈ made
  known : ∀ {block}, .insert block ∈ made → blocks block
  written : a.memory.Rewrites memory fun offset _ =>
    ∃ block, .insert block ∈ made ∧ block.HasLinkAt offset

namespace Follows

theorem start (hhosts : a.Hosts blocks) : Follows {} a blocks [] (fun _ => []) a.memory where
  threads := threads_empty hhosts.short
  class_eq := nofun
  listed _ hblock := nomatch (Chains.mem_members.1 hblock).choose_spec
  known := nofun
  written := .refl _ _

/-- The size of a block is still in its header. -/
theorem header_eq (h : index.Follows a blocks made chains memory) (hhosts : a.Hosts blocks)
    {block : Block} (hblock : blocks block) :
    ∃ tag, Arena.header { a with memory } block = .ok tag ∧
      tag.size = a.memory.sizeAt block := by
  have haligned := hhosts.aligned hblock
  have hroom := hhosts.room hblock
  refine ⟨_, Arena.header_eq_load haligned (Nat.le_of_add_right_le hroom), ?_⟩
  have hkept : memory.load (block.offset - 8) = a.memory.load (block.offset - 8) := by
    apply h.written.load_eq (by omega)
    rintro word ⟨other, hother, hlink⟩
    exact hhosts.not_hasLinkAt_header hblock (h.known hother) hlink
  simp only [hkept, Memory.sizeAt]

theorem known_of_mem (h : index.Follows a blocks made chains memory) {block : Block}
    (hmem : block ∈ chains.members) : blocks block :=
  h.known (h.listed block hmem)

theorem insert (h : index.Follows a blocks made chains memory) (hhosts : a.Hosts blocks)
    {block : Block} (hblock : blocks block) (hfresh : block ∉ chains.members) :
    ∃ after memory',
      index.insert { a with memory } block = .ok (after, { a with memory := memory' }) ∧
      Follows after a blocks (made ++ [.insert block])
        (chains.push (SizeClass.ofSize (a.memory.sizeAt block)) block) memory' := by
  obtain ⟨tag, hheader, hsize⟩ := h.header_eq hhosts hblock
  have hspaced : Block.Spaced fun b => b = block ∨ b ∈ chains.members := hhosts.spaced.mono
    fun b hb => hb.elim (fun heq => heq ▸ hblock) h.known_of_mem
  obtain ⟨after, memory', hinsert, hthreads, hchange⟩ := h.threads.insert hheader hspaced
    (hhosts.room hblock) (fun c hmem => hfresh (Chains.mem_members.2 ⟨c, hmem⟩)) (congrArg _ hsize)
  have hlisted : ∀ b ∈ (chains.push (SizeClass.ofSize (a.memory.sizeAt block)) block).members,
      .insert b ∈ made ++ [.insert block] := by
    intro b hb
    rw [List.mem_append, List.mem_singleton]
    exact (Chains.mem_members_push.1 hb).elim (fun heq => .inr (congrArg _ heq))
      fun hb => .inl (h.listed b hb)
  refine ⟨after, memory', hinsert, hthreads, ?_, hlisted, ?_, ?_⟩
  · intro c b hb
    rcases Chains.mem_push.1 hb with ⟨rfl, rfl⟩ | hb
    · rfl
    · exact h.class_eq hb
  · intro b hb
    rcases List.mem_append.1 hb with hb | hb
    · exact h.known hb
    · cases List.mem_singleton.1 hb
      exact hblock
  · refine (h.written.mono ?_).trans (hchange.mono ?_)
    · exact fun _ _ ⟨b, hb, hlink⟩ => ⟨b, List.mem_append_left _ hb, hlink⟩
    · exact fun _ _ ⟨⟨c, b, hb, hlink⟩, _⟩ =>
        ⟨b, hlisted b (Chains.mem_members.2 ⟨c, hb⟩), hlink⟩

theorem erase (h : index.Follows a blocks made chains memory) (hhosts : a.Hosts blocks)
    {block : Block} (hmem : block ∈ chains.members) :
    ∃ after memory', index.erase { a with memory } block = .ok (after, { a with memory := memory' })
      ∧ Follows after a blocks made (chains.without [block]) memory' := by
  obtain ⟨sizeClass, hclass⟩ := Chains.mem_members.1 hmem
  obtain ⟨tag, hheader, hsize⟩ := h.header_eq hhosts (h.known_of_mem hmem)
  obtain ⟨after, memory', herase, hthreads, hchange⟩ := h.threads.erase hheader
    ((congrArg _ hsize).trans (h.class_eq hclass)) hclass
  refine ⟨after, memory', herase, hthreads, ?_, ?_, h.known, ?_⟩
  · exact fun hb => h.class_eq (Chains.mem_without.1 hb).1
  · exact fun b hb => h.listed b (Chains.mem_members_without.1 hb).1
  · exact h.written.trans (hchange.mono fun _ _ ⟨⟨c, b, hb, hlink⟩, _⟩ =>
      ⟨b, h.listed b (Chains.mem_members.2 ⟨c, hb⟩), hlink⟩)

theorem forget (h : index.Follows a blocks made chains memory) :
    Follows index.clear a blocks made (fun _ => []) memory where
  threads := threads_empty h.threads.short
  class_eq := nofun
  listed _ hblock := nomatch (Chains.mem_members.1 hblock).choose_spec
  known := h.known
  written := h.written

theorem mono (h : index.Follows a blocks made chains memory) {edit : Edit}
    (hedit : ∀ block, edit ≠ .insert block) :
    index.Follows a blocks (made ++ [edit]) chains memory := by
  have hsame : ∀ block, .insert block ∈ made ++ [edit] ↔ .insert block ∈ made := by
    intro block
    simp [(hedit block).symm]
  exact ⟨h.threads, h.class_eq, fun b hb => (hsame b).2 (h.listed b hb),
    fun hb => h.known ((hsame _).1 hb),
    h.written.mono fun _ _ ⟨b, hb, hlink⟩ => ⟨b, (hsame b).2 hb, hlink⟩⟩

/-- One edit does to the index what it does to the lists. -/
theorem edit (h : index.Follows a blocks made chains memory) (hhosts : a.Hosts blocks)
    {edit : Edit} (hadmits : chains.Admits blocks edit) :
    ∃ after memory', index.edit { a with memory } edit = .ok (after, { a with memory := memory' }) ∧
      Follows after a blocks (made ++ [edit]) (chains.edit a.memory.sizeAt edit) memory' := by
  cases edit with
  | insert block => exact h.insert hhosts hadmits.1 hadmits.2
  | erase block =>
    obtain ⟨after, memory', herase, hfollows⟩ := h.erase hhosts hadmits
    refine ⟨after, memory', herase, ?_⟩
    rw [Chains.edit, Chains.erase_eq_without h.threads.nodup]
    exact hfollows.mono nofun
  | clear => exact ⟨index.clear, memory, rfl, h.forget.mono nofun⟩

theorem editAll (h : index.Follows a blocks made chains memory) (hhosts : a.Hosts blocks)
    (hadmits : chains.AdmitsAll blocks a.memory.sizeAt edits) :
    ∃ after memory',
      index.editAll { a with memory } edits = .ok (after, { a with memory := memory' }) ∧
      Follows after a blocks (made ++ edits) (chains.editAll a.memory.sizeAt edits) memory' := by
  induction edits generalizing index made chains memory with
  | nil =>
    rw [List.append_nil]
    exact ⟨index, memory, rfl, h⟩
  | cons first rest ih =>
    obtain ⟨middle, memory₁, hfirst, hmiddle⟩ := h.edit hhosts hadmits.1
    obtain ⟨after, memory₂, hrest, hafter⟩ := ih hmiddle hadmits.2
    refine ⟨after, memory₂, ?_, ?_⟩
    · rw [FreeIndex.editAll, hfirst, ok_bind]
      exact hrest
    · rw [List.append_assoc] at hafter
      exact hafter

end Follows

/-- Whatever edits are made from the empty index on, it answers as the lists do to which the same
    edits are made, and no word is written but links of blocks that have come in. -/
theorem mirrors_of_editAll (hhosts : a.Hosts blocks)
    (hadmits : Chains.AdmitsAll (fun _ => []) blocks a.memory.sizeAt edits) :
    ∃ index memory, FreeIndex.editAll {} a edits = .ok (index, { a with memory }) ∧
      index.Mirrors { a with memory } (Chains.editAll (fun _ => []) a.memory.sizeAt edits) ∧
      ∀ offset, offset % 8 = 0 → memory.load offset ≠ a.memory.load offset →
        ∃ block, .insert block ∈ edits ∧ block.HasLinkAt offset := by
  obtain ⟨index, memory, hrun, hfollows⟩ := (Follows.start hhosts).editAll hhosts hadmits
  exact ⟨index, memory, hrun, hfollows.threads.mirrors, fun offset haligned hne =>
    (hfollows.written offset haligned).resolve_left hne⟩

/-- Two blocks at odd words, of 32 bytes and of 48. -/
def narrow : Block := ⟨40, by decide, by decide⟩

def wide : Block := ⟨72, by decide, by decide⟩

def oddWords : Arena :=
  { build := .checked, base := 0, len := 128, memory := (Memory.store {} 32 32).store 64 48 }

theorem oddWords_hosts : oddWords.Hosts (· ∈ [narrow, wide]) := by
  have hnarrow : oddWords.memory.sizeAt narrow = 32 := by
    simp [oddWords, narrow, Memory.sizeAt, Memory.load_store, Tag.size_eq]
  have hwide : oddWords.memory.sizeAt wide = 48 := by
    simp [oddWords, wide, Memory.sizeAt, Memory.load_store, Tag.size_eq]
  refine ⟨by decide, ?_, ?_, ?_, ?_⟩
  · simp [narrow, wide]
  · simp [hnarrow, hwide]
  · simp only [List.forall_mem_cons, hnarrow, hwide]
    decide
  · rintro b c hb hc hne
    rcases List.mem_pair.1 hb with rfl | rfl <;> rcases List.mem_pair.1 hc with rfl | rfl
    · exact absurd rfl hne
    · rw [hnarrow, hwide]
      decide
    · rw [hnarrow, hwide]
      decide
    · exact absurd rfl hne

/-- The narrow block goes out from behind the wide one, all are forgotten, and it comes in again. -/
def oddEdits : List Edit :=
  [.insert narrow, .insert wide, .erase narrow, .clear, .insert narrow]

theorem mirrors_oddEdits : ∃ index memory,
    FreeIndex.editAll {} oddWords oddEdits = .ok (index, { oddWords with memory }) ∧
      index.Mirrors { oddWords with memory }
        (Chains.editAll (fun _ => []) oddWords.memory.sizeAt oddEdits) ∧
      ∀ offset, offset % 8 = 0 → memory.load offset ≠ oddWords.memory.load offset →
        ∃ block, Edit.insert block ∈ oddEdits ∧ block.HasLinkAt offset := by
  refine mirrors_of_editAll oddWords_hosts ?_
  have hne : wide ≠ narrow := by decide
  simp [oddEdits, Chains.AdmitsAll, Chains.Admits, Chains.edit, Chains.mem_members,
    Chains.mem_push, hne]

end FreeIndex

end BoundaryTag
