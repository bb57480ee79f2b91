import BoundaryTag.FreeList.Link
import BoundaryTag.Proofs.Memory.Rewrites
import Mathlib.Data.List.Chain

namespace BoundaryTag

/-- The payload words that hold a block's links. -/
def Block.HasLinkAt (block : Block) (offset : Nat) : Prop :=
  offset = block.offset ∨ offset = block.offset + 8

/-- Blocks at word offsets of which none has its link words over those of another. -/
structure Block.Spaced (blocks : Block → Prop) : Prop where
  aligned : ∀ {b}, blocks b → b.offset % 8 = 0
  apart : ∀ {b c}, blocks b → blocks c → b.offset ≠ c.offset + 8

/-- The word is a link to one of these blocks, or the mark of an end. -/
def Link.Names (blocks : Block → Prop) (word : UInt64) : Prop :=
  ∃ target, (∀ block ∈ target, blocks block) ∧ word = Link.toWord target

namespace Block.Spaced

variable {blocks : Block → Prop} {b c : Block} {offset : Nat}

theorem of_mod (h : ∀ b, blocks b → b.offset % 16 = 0) : Spaced blocks where
  aligned hb := by
    have := h _ hb
    omega
  apart hb hc := by
    have := h _ hb
    have := h _ hc
    omega

theorem mono (h : Spaced blocks) {fewer : Block → Prop} (hfewer : ∀ b, fewer b → blocks b) :
    Spaced fewer where
  aligned hb := h.aligned (hfewer _ hb)
  apart hb hc := h.apart (hfewer _ hb) (hfewer _ hc)

/-- A word is a link of one block only. -/
theorem eq_of_link (h : Spaced blocks) (hb : blocks b) (hc : blocks c) (hblink : b.HasLinkAt offset)
    (hclink : c.HasLinkAt offset) : b = c := by
  have hbc := h.apart hb hc
  have hcb := h.apart hc hb
  apply Block.ext
  rcases hblink with hblink | hblink <;> rcases hclink with hclink | hclink <;> omega

theorem link_mod (h : Spaced blocks) (hb : blocks b) (hlink : b.HasLinkAt offset) :
    offset % 8 = 0 := by
  have := h.aligned hb
  rcases hlink with hlink | hlink <;> omega

end Block.Spaced

namespace Link.Names

variable {blocks : Block → Prop} {word : UInt64}

theorem mono (h : Link.Names blocks word) {more : Block → Prop} (hmore : ∀ b, blocks b → more b) :
    Link.Names more word := by
  obtain ⟨target, htarget, rfl⟩ := h
  exact ⟨target, fun b hb => hmore b (htarget b hb), rfl⟩

theorem mod (h : Link.Names blocks word) (haligned : ∀ b, blocks b → b.offset % 16 = 0) :
    word.toNat % 16 = 0 := by
  obtain ⟨target, htarget, rfl⟩ := h
  cases target with
  | none => rfl
  | some block =>
    have hword : (UInt64.ofNat block.offset).toNat = block.offset :=
      UInt64.toNat_ofNat_of_lt block.offset_lt
    simp only [Link.toWord, Option.map_some, Option.getD_some, hword]
    exact haligned block (htarget block rfl)

end Link.Names

namespace Memory

/-- `x` and `y` are neighbours: each of them that is a block names the other. -/
def Joined (m : Memory) (x y : Option Block) : Prop :=
  (∀ block ∈ x, m.load (block.offset + 8) = Link.toWord y) ∧
    ∀ block ∈ y, m.load block.offset = Link.toWord x

/-- The blocks of a list are linked in both directions, and its ends are marked. -/
def Linked (m : Memory) (blocks : List Block) : Prop :=
  (none :: (blocks.map some ++ [none])).IsChain m.Joined

/-- Writes the forward link of `x`, if that is a block. -/
def linkNext (m : Memory) (x y : Option Block) : Memory :=
  match x with
  | some block => m.store (block.offset + 8) (Link.toWord y)
  | none => m

/-- Writes the back link of `y`, if that is a block. -/
def linkPrev (m : Memory) (y x : Option Block) : Memory :=
  match y with
  | some block => m.store block.offset (Link.toWord x)
  | none => m

/-- Makes `x` and `y` neighbours. -/
def join (m : Memory) (x y : Option Block) : Memory := (m.linkNext x y).linkPrev y x

variable {m after : Memory}

theorem rewrites_linkNext (m : Memory) {x : Option Block}
    (hx : ∀ block ∈ x, block.offset % 8 = 0) (y : Option Block) :
    m.Rewrites (m.linkNext x y) fun offset word =>
      (∃ block ∈ x, offset = block.offset + 8) ∧ word = Link.toWord y := by
  cases x with
  | none => exact .refl _ _
  | some block =>
    have := hx block rfl
    exact (m.rewrites_store (by omega) _).mono fun _ _ h => ⟨⟨block, rfl, h.1⟩, h.2⟩

theorem rewrites_linkPrev (m : Memory) {y : Option Block}
    (hy : ∀ block ∈ y, block.offset % 8 = 0) (x : Option Block) :
    m.Rewrites (m.linkPrev y x) fun offset word =>
      (∃ block ∈ y, offset = block.offset) ∧ word = Link.toWord x := by
  cases y with
  | none => exact .refl _ _
  | some block =>
    have := hy block rfl
    exact (m.rewrites_store (by omega) _).mono fun _ _ h => ⟨⟨block, rfl, h.1⟩, h.2⟩

theorem rewrites_join (m : Memory) {x y : Option Block}
    (hspaced : Block.Spaced fun block => block ∈ x ∨ block ∈ y) :
    m.Rewrites (m.join x y) fun offset word =>
      (∃ block ∈ x, offset = block.offset + 8) ∧ word = Link.toWord y ∨
        (∃ block ∈ y, offset = block.offset) ∧ word = Link.toWord x :=
  ((m.rewrites_linkNext (fun _ hb => hspaced.aligned (.inl hb)) y).mono fun _ _ h => .inl h).trans
    ((rewrites_linkPrev _ (fun _ hb => hspaced.aligned (.inr hb)) x).mono fun _ _ h => .inr h)

/-- The same without regard to which links are written. -/
theorem rewrites_join_links (m : Memory) {x y : Option Block}
    (hspaced : Block.Spaced fun block => block ∈ x ∨ block ∈ y) :
    m.Rewrites (m.join x y) fun offset word =>
      (∃ block, (block ∈ x ∨ block ∈ y) ∧ block.HasLinkAt offset) ∧
        Link.Names (fun block => block ∈ x ∨ block ∈ y) word := by
  apply (m.rewrites_join hspaced).mono
  rintro offset word (⟨⟨block, hblock, hoffset⟩, rfl⟩ | ⟨⟨block, hblock, hoffset⟩, rfl⟩)
  · exact ⟨⟨block, .inl hblock, .inr hoffset⟩, y, fun _ hb => .inr hb, rfl⟩
  · exact ⟨⟨block, .inr hblock, .inl hoffset⟩, x, fun _ hb => .inl hb, rfl⟩

theorem joined_join (m : Memory) {x y : Option Block}
    (hspaced : Block.Spaced fun block => block ∈ x ∨ block ∈ y) : (m.join x y).Joined x y := by
  constructor
  · rintro block rfl
    have hblock : block.offset % 8 = 0 := hspaced.aligned (.inl rfl)
    have haligned : (block.offset + 8) % 8 = 0 := by omega
    have hkept := (rewrites_linkPrev (m.linkNext (some block) y)
      (fun _ hb => hspaced.aligned (.inr hb)) (some block)).load_eq haligned (by
        rintro word ⟨⟨next, hnext, hoffset⟩, -⟩
        exact hspaced.apart (.inr hnext) (.inl rfl) hoffset.symm)
    rw [join, hkept, linkNext, load_store _ (by omega) (by omega), if_pos rfl]
  · rintro block rfl
    have hblock : block.offset % 8 = 0 := hspaced.aligned (.inr rfl)
    rw [join, linkPrev, load_store _ (by omega) (by omega), if_pos rfl]

/-- Neighbours read the forward links of all but the last and the back links of all but the first
    of them. -/
theorem isChain_joined_congr {ends : List (Option Block)} (h : ends.IsChain m.Joined)
    (hnext : ∀ block, some block ∈ ends.dropLast →
      after.load (block.offset + 8) = m.load (block.offset + 8))
    (hprev : ∀ block, some block ∈ ends.tail →
      after.load block.offset = m.load block.offset) :
    ends.IsChain after.Joined := by
  rw [List.isChain_iff_forall_rel_of_append_cons_cons] at h ⊢
  intro x y front rest hends
  obtain ⟨hforward, hback⟩ := h hends
  constructor
  · rintro block rfl
    rw [hnext block (by simp [hends])]
    exact hforward block rfl
  · rintro block rfl
    rw [hprev block (by cases front <;> simp [hends])]
    exact hback block rfl

private theorem cons_map_some (blocks : List Block) :
    none :: blocks.map some = (none :: blocks.map some).dropLast ++ [blocks.getLast?] := by
  rcases List.eq_nil_or_concat blocks with rfl | ⟨front, last, rfl⟩
  · rfl
  · simp [List.dropLast_cons_of_ne_nil]

private theorem map_some_append (blocks : List Block) :
    blocks.map some ++ [none] = blocks.head? :: (blocks.map some ++ [none]).tail := by
  cases blocks <;> rfl

/-- A linked list comes apart at any seam: what lies before it, the two neighbours at the seam, and
    what lies behind it. -/
theorem linked_append {front rest : List Block} :
    m.Linked (front ++ rest) ↔ (none :: front.map some).IsChain m.Joined ∧
      m.Joined front.getLast? rest.head? ∧ (rest.map some ++ [none]).IsChain m.Joined := by
  have hsplit : none :: ((front ++ rest).map some ++ [none]) =
      (none :: front.map some).dropLast ++
        front.getLast? :: rest.head? :: (rest.map some ++ [none]).tail := by
    calc
      _ = (none :: front.map some) ++ (rest.map some ++ [none]) := by simp
      _ = _ := by
        conv => lhs; rw [cons_map_some, map_some_append]
        simp
  rw [Linked, hsplit, List.isChain_append_cons_cons, ← cons_map_some, ← map_some_append]

theorem linked_iff {blocks : List Block} :
    m.Linked blocks ↔ m.Joined none blocks.head? ∧
      (blocks.map some ++ [none]).IsChain m.Joined := by
  have happend := @linked_append m [] blocks
  simpa using happend

theorem linked_nil (m : Memory) : m.Linked [] := by
  simp [Linked, Joined]

theorem front_congr {front : List Block} (h : (none :: front.map some).IsChain m.Joined)
    (hnext : ∀ block ∈ front.dropLast,
      after.load (block.offset + 8) = m.load (block.offset + 8))
    (hprev : ∀ block ∈ front, after.load block.offset = m.load block.offset) :
    (none :: front.map some).IsChain after.Joined := by
  refine isChain_joined_congr h (fun block hblock => hnext block ?_) fun block hblock =>
    hprev block (by simpa using hblock)
  cases front with
  | nil => simp at hblock
  | cons first rest =>
    rw [List.map_cons, List.dropLast_cons_cons, ← List.map_cons, ← List.map_dropLast] at hblock
    obtain ⟨found, hfound, heq⟩ := List.mem_map.1 ((List.mem_cons.1 hblock).resolve_left nofun)
    exact Option.some.inj heq ▸ hfound

theorem rest_congr {rest : List Block} (h : (rest.map some ++ [none]).IsChain m.Joined)
    (hnext : ∀ block ∈ rest, after.load (block.offset + 8) = m.load (block.offset + 8))
    (hprev : ∀ block ∈ rest.tail, after.load block.offset = m.load block.offset) :
    (rest.map some ++ [none]).IsChain after.Joined := by
  refine isChain_joined_congr h (fun block hblock => hnext block (by simpa using hblock))
    fun block hblock => hprev block ?_
  cases rest with
  | nil => simp at hblock
  | cons first rest => simpa using hblock

theorem Linked.congr {blocks : List Block} (h : m.Linked blocks)
    (hnext : ∀ block ∈ blocks, after.load (block.offset + 8) = m.load (block.offset + 8))
    (hprev : ∀ block ∈ blocks, after.load block.offset = m.load block.offset) :
    after.Linked blocks := by
  obtain ⟨hjoined, hrest⟩ := linked_iff.1 h
  refine linked_iff.2 ⟨⟨by simp, ?_⟩, ?_⟩
  · intro block hblock
    rw [hprev block (List.mem_of_mem_head? hblock)]
    exact hjoined.2 block hblock
  · exact rest_congr hrest hnext fun block hblock => hprev block (List.mem_of_mem_tail hblock)

/-- The neighbours of a block in a linked list. -/
theorem Linked.joined {front rest : List Block} {block : Block}
    (h : m.Linked (front ++ block :: rest)) :
    m.Joined front.getLast? (some block) ∧ m.Joined (some block) rest.head? := by
  refine ⟨(linked_append.1 h).2.1, ?_⟩
  rw [show front ++ block :: rest = (front ++ [block]) ++ rest by simp] at h
  simpa using (linked_append.1 h).2.1

/-- A list decides what the links of its blocks are. -/
theorem Linked.load_eq {blocks : List Block} (h : m.Linked blocks) (hafter : after.Linked blocks)
    {block : Block} (hblock : block ∈ blocks) {offset : Nat} (hlink : block.HasLinkAt offset) :
    after.load offset = m.load offset := by
  obtain ⟨front, rest, rfl⟩ := List.append_of_mem hblock
  obtain ⟨hback, hforward⟩ := h.joined
  obtain ⟨hback', hforward'⟩ := hafter.joined
  rcases hlink with rfl | rfl
  · rw [hback.2 block rfl, hback'.2 block rfl]
  · rw [hforward.1 block rfl, hforward'.1 block rfl]

/-- Joining a block to the old head links it in front of the list. -/
theorem Linked.cons {blocks : List Block} {block : Block} (h : m.Linked blocks)
    (hnodup : (block :: blocks).Nodup) (hspaced : Block.Spaced (· ∈ block :: blocks)) :
    ((m.join none (some block)).join (some block) blocks.head?).Linked (block :: blocks) := by
  have hmem : ∀ b ∈ blocks, b ∈ block :: blocks := fun b hb => List.mem_cons_of_mem _ hb
  have hhead : ∀ b ∈ blocks.head?, b ∈ block :: blocks := fun b hb =>
    hmem b (List.mem_of_mem_head? hb)
  have hself : ∀ b ∈ some block, b ∈ block :: blocks := by
    rintro b ⟨⟩
    exact List.mem_cons_self
  have hnew : Block.Spaced fun b => b ∈ (none : Option Block) ∨ b ∈ some block :=
    hspaced.mono fun b hb => hb.elim (fun hb => nomatch hb) (hself b)
  have hold : Block.Spaced fun b => b ∈ some block ∨ b ∈ blocks.head? :=
    hspaced.mono fun b hb => hb.elim (hself b) (hhead b)
  have hblock := hspaced.aligned List.mem_cons_self
  have hjoined := m.joined_join hnew
  have hfirst := m.rewrites_join hnew
  have hsecond := (m.join none (some block)).rewrites_join hold
  obtain ⟨hfresh, hnodup⟩ := List.nodup_cons.1 hnodup
  have hother : ∀ b ∈ blocks, b.offset ≠ block.offset := fun b hb heq =>
    hfresh (Block.ext heq ▸ hb)
  rw [show block :: blocks = [block] ++ blocks from rfl, linked_append]
  refine ⟨?_, joined_join _ hold, ?_⟩
  · -- The back link of the new head is written first and stays.
    have hload := hsecond.load_eq hblock (by
      rintro word (⟨⟨b, hb, hoffset⟩, -⟩ | ⟨⟨b, hb, hoffset⟩, -⟩)
      · exact hspaced.apart List.mem_cons_self (hself b hb) hoffset
      · exact hother b (List.mem_of_mem_head? hb) hoffset.symm)
    simpa [Joined, hload] using hjoined
  · have hrest := (linked_iff.1 h).2
    apply rest_congr hrest
    · intro b hb
      have hb8 := hspaced.aligned (hmem b hb)
      have hplace : (b.offset + 8) % 8 = 0 := by omega
      have hne := hother b hb
      rw [hsecond.load_eq hplace, hfirst.load_eq hplace]
      · rintro word (⟨⟨c, hc, -⟩, -⟩ | ⟨⟨c, hc, hoffset⟩, -⟩)
        · cases hc
        · exact hspaced.apart (hself c hc) (hmem b hb) hoffset.symm
      · rintro word (⟨⟨c, hc, hoffset⟩, -⟩ | ⟨⟨c, hc, hoffset⟩, -⟩)
        · cases hc
          omega
        · exact hspaced.apart (hhead c hc) (hmem b hb) hoffset.symm
    · intro b hb
      have hold := List.mem_of_mem_tail hb
      have hb8 := hspaced.aligned (hmem b hold)
      have hne := hother b hold
      rw [hsecond.load_eq hb8, hfirst.load_eq hb8]
      · rintro word (⟨⟨c, hc, -⟩, -⟩ | ⟨⟨c, hc, hoffset⟩, -⟩) <;> cases hc
        exact hne hoffset
      · rintro word (⟨⟨c, hc, hoffset⟩, -⟩ | ⟨⟨c, hc, hoffset⟩, -⟩)
        · exact hspaced.apart (hmem b hold) (hself c hc) hoffset
        · -- Only the old head gets a new back link, and no later block is that head.
          cases blocks with
          | nil => simp at hc
          | cons head rest =>
            obtain rfl : head = c := by simpa using hc
            exact (List.nodup_cons.1 hnodup).1 (Block.ext hoffset ▸ hb)

/-- Joining the neighbours of a block takes it out of the list. -/
theorem Linked.erase {front rest : List Block} {block : Block}
    (h : m.Linked (front ++ block :: rest)) (hnodup : (front ++ rest).Nodup)
    (hspaced : Block.Spaced (· ∈ front ++ rest)) :
    (m.join front.getLast? rest.head?).Linked (front ++ rest) := by
  have hlast : ∀ b ∈ front.getLast?, b ∈ front := fun b hb => List.mem_of_mem_getLast? hb
  have hhead : ∀ b ∈ rest.head?, b ∈ rest := fun b hb => List.mem_of_mem_head? hb
  have hleft : ∀ b ∈ front, b ∈ front ++ rest := fun b hb => List.mem_append_left _ hb
  have hright : ∀ b ∈ rest, b ∈ front ++ rest := fun b hb => List.mem_append_right _ hb
  have hseam : Block.Spaced fun b => b ∈ front.getLast? ∨ b ∈ rest.head? := hspaced.mono fun b hb =>
    hb.elim (fun hb => hleft b (hlast b hb)) fun hb => hright b (hhead b hb)
  have hchange := m.rewrites_join hseam
  obtain ⟨hfrontNodup, hrestNodup, hapart⟩ := List.nodup_append.1 hnodup
  have hfront := (linked_append.1 h).1
  rw [show front ++ block :: rest = (front ++ [block]) ++ rest by simp] at h
  have hrest := (linked_append.1 h).2.2
  refine linked_append.2 ⟨front_congr hfront ?_ ?_, joined_join _ hseam, rest_congr hrest ?_ ?_⟩
  · intro b hb
    have hmem := List.dropLast_subset front hb
    have hb8 := hspaced.aligned (hleft b hmem)
    apply hchange.load_eq (by omega)
    rintro word (⟨⟨c, hc, hoffset⟩, -⟩ | ⟨⟨c, hc, hoffset⟩, -⟩)
    · have hsplit := List.dropLast_append_getLast? c hc
      rw [← hsplit, List.nodup_append] at hfrontNodup
      exact hfrontNodup.2.2 b hb c (by simp) (Block.ext (by omega))
    · exact hspaced.apart (hright c (hhead c hc)) (hleft b hmem) hoffset.symm
  · intro b hb
    apply hchange.load_eq (hspaced.aligned (hleft b hb))
    rintro word (⟨⟨c, hc, hoffset⟩, -⟩ | ⟨⟨c, hc, hoffset⟩, -⟩)
    · exact hspaced.apart (hleft b hb) (hleft c (hlast c hc)) hoffset
    · exact hapart b hb c (hhead c hc) (Block.ext hoffset)
  · intro b hb
    have hb8 := hspaced.aligned (hright b hb)
    apply hchange.load_eq (by omega)
    rintro word (⟨⟨c, hc, hoffset⟩, -⟩ | ⟨⟨c, hc, hoffset⟩, -⟩)
    · exact hapart c (hlast c hc) b hb (Block.ext (by omega))
    · exact hspaced.apart (hright c (hhead c hc)) (hright b hb) hoffset.symm
  · intro b hb
    have hmem := List.mem_of_mem_tail hb
    apply hchange.load_eq (hspaced.aligned (hright b hmem))
    rintro word (⟨⟨c, hc, hoffset⟩, -⟩ | ⟨⟨c, hc, hoffset⟩, -⟩)
    · exact hspaced.apart (hright b hmem) (hleft c (hlast c hc)) hoffset
    · cases rest with
      | nil => simp at hc
      | cons head rest =>
        obtain rfl : head = c := by simpa using hc
        exact (List.nodup_cons.1 hrestNodup).1 (Block.ext hoffset ▸ hb)

end Memory

end BoundaryTag
