import BoundaryTag.Proofs.FreeList.Ascent
import BoundaryTag.Proofs.FreeList.Link
import Mathlib.Data.List.Nodup

namespace BoundaryTag

/-- The blocks of each class, from the head on. -/
abbrev Chains := SizeClass → List Block

namespace Chains

def push (chains : Chains) (sizeClass : SizeClass) (block : Block) : Chains := fun other =>
  if other = sizeClass then block :: chains other else chains other

/-- The chains without some blocks, the others in their old order. -/
def without (chains : Chains) (gone : List Block) : Chains := fun sizeClass =>
  (chains sizeClass).filter (· ∉ gone)

/-- The blocks of all classes. -/
def members (chains : Chains) : List Block := (List.finRange classCount).flatMap chains

/-- Where the links of listed blocks lie. -/
def HasLinkAt (chains : Chains) (offset : Nat) : Prop :=
  ∃ sizeClass, ∃ block ∈ chains sizeClass, block.HasLinkAt offset

variable {chains : Chains}

theorem push_self (sizeClass : SizeClass) (block : Block) :
    chains.push sizeClass block sizeClass = block :: chains sizeClass :=
  if_pos rfl

theorem push_of_ne {sizeClass other : SizeClass} (hne : other ≠ sizeClass) (block : Block) :
    chains.push sizeClass block other = chains other :=
  if_neg hne

theorem mem_push {sizeClass other : SizeClass} {block b : Block} :
    b ∈ chains.push sizeClass block other ↔
      other = sizeClass ∧ b = block ∨ b ∈ chains other := by
  unfold push
  split <;> simp [*]

theorem mem_without {gone : List Block} {sizeClass : SizeClass} {b : Block} :
    b ∈ chains.without gone sizeClass ↔ b ∈ chains sizeClass ∧ b ∉ gone := by
  simp [without]

theorem without_eq_self {gone : List Block} {sizeClass : SizeClass}
    (h : ∀ b ∈ gone, b ∉ chains sizeClass) : chains.without gone sizeClass = chains sizeClass := by
  refine List.filter_eq_self.2 fun b hb => ?_
  simpa using fun hgone => h b hgone hb

theorem without_middle {sizeClass : SizeClass} {front rest : List Block} {block : Block}
    (hsplit : chains sizeClass = front ++ block :: rest) (hnodup : (chains sizeClass).Nodup) :
    chains.without [block] sizeClass = front ++ rest := by
  rw [hsplit, List.nodup_middle, List.nodup_cons] at hnodup
  rw [without, hsplit, List.filter_append, List.filter_cons_of_neg (by simp),
    ← List.filter_append, List.filter_eq_self]
  intro b hb
  have hne : b ≠ block := fun heq => hnodup.1 (heq ▸ hb)
  simp [hne]

theorem without_without (gone others : List Block) :
    (chains.without gone).without others = chains.without (gone ++ others) := by
  funext sizeClass
  simp [without, List.filter_filter, Bool.and_comm]

theorem without_perm {gone others : List Block} (h : gone.Perm others) :
    chains.without gone = chains.without others := by
  funext sizeClass
  simp only [without, h.mem_iff]

theorem without_push {block : Block} (hfresh : ∀ sizeClass, block ∉ chains sizeClass)
    (sizeClass : SizeClass) : (chains.push sizeClass block).without [block] = chains := by
  funext other
  have hkept : chains.without [block] other = chains other :=
    without_eq_self (by simpa using hfresh other)
  by_cases hother : other = sizeClass
  · subst hother
    rw [without, push_self, List.filter_cons_of_neg (by simp)]
    exact hkept
  · rw [without, push_of_ne hother]
    exact hkept

theorem without_nil : chains.without [] = chains := by
  funext sizeClass
  simp [without]

theorem mem_members {block : Block} :
    block ∈ chains.members ↔ ∃ sizeClass, block ∈ chains sizeClass := by
  simp only [members, List.mem_flatMap, List.mem_finRange, true_and]

theorem mem_members_push {sizeClass : SizeClass} {block b : Block} :
    b ∈ (chains.push sizeClass block).members ↔ b = block ∨ b ∈ chains.members := by
  simp only [mem_members, mem_push, exists_or, exists_eq_left]

theorem mem_members_without {gone : List Block} {b : Block} :
    b ∈ (chains.without gone).members ↔ b ∈ chains.members ∧ b ∉ gone := by
  simp only [mem_members, mem_without, exists_and_right]

theorem erase_eq_without (hnodup : ∀ sizeClass, (chains sizeClass).Nodup) (block : Block) :
    (fun sizeClass => (chains sizeClass).erase block) = chains.without [block] := by
  funext sizeClass
  rw [(hnodup sizeClass).erase_eq_filter, without]
  exact List.filter_congr (by simp [bne, beq_eq_decide])

theorem hasLinkAt_of_mem {block : Block} {offset : Nat} (hmem : block ∈ chains.members)
    (hlink : block.HasLinkAt offset) : chains.HasLinkAt offset := by
  obtain ⟨sizeClass, hblock⟩ := mem_members.1 hmem
  exact ⟨sizeClass, block, hblock, hlink⟩

/-- No block is listed twice, if none is in a list twice and none is in two lists. -/
theorem nodup_members (hnodup : ∀ sizeClass, (chains sizeClass).Nodup)
    (hclass : ∀ {block c d}, block ∈ chains c → block ∈ chains d → c = d) :
    chains.members.Nodup := by
  refine List.nodup_flatMap.2 ⟨fun c _ => hnodup c, ?_⟩
  refine (List.nodup_finRange classCount).imp fun hne block hblock hother => ?_
  exact hne (hclass hblock hother)

theorem HasLinkAt.of_without {gone : List Block} {offset : Nat}
    (h : (chains.without gone).HasLinkAt offset) : chains.HasLinkAt offset := by
  obtain ⟨sizeClass, block, hblock, hlink⟩ := h
  exact ⟨sizeClass, block, (mem_without.1 hblock).1, hlink⟩

end Chains

/-- The size in the header of a block. -/
def Memory.sizeAt (m : Memory) (block : Block) : Nat := Tag.size ⟨m.load (block.offset - 8)⟩

/-- The heads of the index and the links in the arena spell out `chains`. -/
structure FreeIndex.Threads (index : FreeIndex) (a : Arena) (chains : Chains) : Prop where
  head_eq : ∀ sizeClass, index.heads[sizeClass] = (chains sizeClass).head?
  linked : ∀ sizeClass, a.memory.Linked (chains sizeClass)
  nodup : ∀ sizeClass, (chains sizeClass).Nodup
  class_eq : ∀ {block c d}, block ∈ chains c → block ∈ chains d → c = d
  spaced : Block.Spaced (· ∈ chains.members)
  inside : ∀ {block sizeClass}, block ∈ chains sizeClass → block.offset + 16 ≤ a.len
  short : a.len < UInt64.size

namespace Arena

variable {a : Arena} {block : Block}

theorem putPrev_eq (haligned : block.offset % 8 = 0) (hinside : block.offset + 16 ≤ a.len)
    (prev : Option Block) :
    a.putPrev block prev = .ok { a with memory := a.memory.linkPrev (some block) prev } :=
  a.store_eq_ok (by omega) (by omega) _

theorem putNext_eq (haligned : block.offset % 8 = 0) (hinside : block.offset + 16 ≤ a.len)
    (hshort : a.len < UInt64.size) (next : Option Block) :
    a.putNext block next = .ok { a with memory := a.memory.linkNext (some block) next } := by
  rw [putNext, wordBytes, a.build.add_eq_ok (by omega), ok_bind]
  exact a.store_eq_ok (by omega) (by omega) _

/-- A block between `x` and `y` in a list is read back with these two links. -/
theorem link_eq {x y : Option Block} (haligned : block.offset % 8 = 0)
    (hinside : block.offset + 16 ≤ a.len) (hshort : a.len < UInt64.size)
    (hprev : a.memory.Joined x (some block)) (hnext : a.memory.Joined (some block) y) :
    a.link block = .ok ⟨x, y⟩ := by
  rw [link, wordBytes, a.load_eq_ok (by omega) (by omega), ok_bind,
    a.build.add_eq_ok (by omega), ok_bind, a.load_eq_ok (by omega) (by omega),
    hprev.2 block rfl, hnext.1 block rfl]
  simp only [Link.ofWord_toWord, ok_bind, pure_eq_ok]

/-- A list is read off as far as one likes, if each of its blocks names the next one. -/
theorem listFrom_eq {blocks : List Block}
    (hnext : ∀ front block rest, blocks = front ++ block :: rest →
      ∃ prev, a.link block = .ok ⟨prev, rest.head?⟩) (limit : Nat) :
    a.listFrom limit blocks.head? = .ok (blocks.take limit) := by
  induction blocks generalizing limit with
  | nil => cases limit <;> rfl
  | cons block rest ih =>
    cases limit with
    | zero => rfl
    | succ limit =>
      obtain ⟨prev, hlink⟩ := hnext [] block rest rfl
      have hrest := ih (fun front other rest' hsplit =>
        hnext (block :: front) other rest' (by rw [hsplit, List.cons_append])) limit
      rw [List.head?_cons, listFrom, hlink, ok_bind, hrest, ok_bind, List.take_succ_cons]
      rfl

end Arena

namespace FreeIndex

variable {index : FreeIndex} {a : Arena} {chains : Chains} {block : Block} {tag : Tag}

theorem Threads.aligned (h : index.Threads a chains) {sizeClass : SizeClass}
    (hmem : block ∈ chains sizeClass) : block.offset % 8 = 0 :=
  h.spaced.aligned (Chains.mem_members.2 ⟨sizeClass, hmem⟩)

/-- A block listed in its class stands between its neighbours there. -/
theorem Threads.link_eq (h : index.Threads a chains) {sizeClass : SizeClass}
    {front rest : List Block} (hsplit : chains sizeClass = front ++ block :: rest) :
    a.link block = .ok ⟨front.getLast?, rest.head?⟩ := by
  have hmem : block ∈ chains sizeClass := by simp [hsplit]
  have hlinked := h.linked sizeClass
  rw [hsplit] at hlinked
  exact Arena.link_eq (h.aligned hmem) (h.inside hmem) h.short hlinked.joined.1 hlinked.joined.2

theorem Threads.header_eq (h : index.Threads a chains) {sizeClass : SizeClass} {block : Block}
    (hmem : block ∈ chains sizeClass) :
    a.header block = .ok ⟨a.memory.load (block.offset - 8)⟩ := by
  have haligned := h.aligned hmem
  have hinside := h.inside hmem
  exact Arena.header_eq_load (by omega) (by omega)

theorem Threads.head_eq_some (h : index.Threads a chains) (sizeClass : SizeClass) :
    index.head sizeClass = (chains sizeClass).head? :=
  (index.head_of_lt sizeClass.isLt).trans (h.head_eq sizeClass)

/-- The lists decide the heads. -/
theorem Threads.index_eq (h : index.Threads a chains) {after : FreeIndex} {b : Arena}
    (hafter : after.Threads b chains) : after = index := by
  obtain ⟨heads⟩ := index
  obtain ⟨heads'⟩ := after
  have hheads : heads' = heads := Vector.ext fun i hi =>
    (hafter.head_eq ⟨i, hi⟩).trans (h.head_eq ⟨i, hi⟩).symm
  rw [hheads]

/-- What the list of a class looks like from its head. -/
theorem Threads.listFrom_head_eq (h : index.Threads a chains) (sizeClass : SizeClass)
    (limit : Nat) :
    a.listFrom limit (index.head sizeClass) = .ok ((chains sizeClass).take limit) := by
  rw [h.head_eq_some]
  exact Arena.listFrom_eq (fun front block rest hsplit => ⟨_, h.link_eq hsplit⟩) limit

/-- The search above a class takes the head of the next list that has one. -/
theorem Threads.headAbove_eq (h : index.Threads a chains) (build : Build) (sizeClass : SizeClass) :
    index.headAbove build sizeClass =
      .ok (((List.finRange classCount).drop (sizeClass + 1)).findSome? fun c =>
        (chains c).head?) := by
  have hnext : (sizeClass : Nat) + 1 < UInt64.size :=
    Nat.lt_of_le_of_lt sizeClass.isLt (by decide)
  simp only [index.headAbove_eq build hnext, headFrom, h.head_eq_some]

/-- The index is not disturbed by writes that miss the links of listed blocks. -/
theorem Threads.congr (h : index.Threads a chains) {memory : Memory} {len : Nat}
    (hlen : a.len ≤ len) (hshort : len < UInt64.size)
    (hkept : ∀ offset, offset % 8 = 0 → chains.HasLinkAt offset →
      memory.load offset = a.memory.load offset) :
    index.Threads { a with memory, len } chains where
  head_eq := h.head_eq
  linked sizeClass := by
    apply (h.linked sizeClass).congr
    · intro b hb
      have := h.aligned hb
      exact hkept _ (by omega) ⟨sizeClass, b, hb, .inr rfl⟩
    · exact fun b hb => hkept _ (h.aligned hb) ⟨sizeClass, b, hb, .inl rfl⟩
  nodup := h.nodup
  class_eq := h.class_eq
  spaced := h.spaced
  inside hb := (h.inside hb).trans hlen
  short := hshort

/-- An index without blocks. -/
theorem threads_empty (hshort : a.len < UInt64.size) :
    FreeIndex.Threads {} a fun _ => [] where
  head_eq _ := Vector.getElem_replicate ..
  linked _ := a.memory.linked_nil
  nodup _ := .nil
  class_eq := nofun
  spaced := .of_mod fun _ hb => nomatch (Chains.mem_members.1 hb).choose_spec
  inside := nofun
  short := hshort

theorem getElem_heads_set (heads : Vector (Option Block) classCount) (c d : SizeClass)
    (head : Option Block) : (heads.set c head)[d] = if d = c then head else heads[d] := by
  rw [Fin.getElem_fin, Fin.getElem_fin, Vector.getElem_set]
  simp only [Fin.val_inj, eq_comm]

theorem Threads.head_mem (h : index.Threads a chains) {sizeClass : SizeClass} {head : Block}
    (hhead : index.heads[sizeClass] = some head) : head ∈ chains sizeClass := by
  rw [h.head_eq] at hhead
  exact List.mem_of_mem_head? hhead

theorem Threads.insert_eq (h : index.Threads a chains) (hheader : a.header block = .ok tag)
    (haligned : block.offset % 8 = 0) (hinside : block.offset + 16 ≤ a.len)
    {sizeClass : SizeClass} (hclass : SizeClass.ofSize tag.size = sizeClass) :
    index.insert a block = .ok (⟨index.heads.set sizeClass (some block)⟩,
      { a with memory :=
          (a.memory.join none (some block)).join (some block) (chains sizeClass).head? }) := by
  have hshort := h.short
  rw [insert, hheader, ok_bind]
  simp only [Arena.putLink, Arena.putPrev_eq, Arena.putNext_eq, haligned, hinside, hshort,
    hclass, ok_bind, ← h.head_eq]
  cases hfirst : index.heads[sizeClass] with
  | none => rfl
  | some head =>
    have hmem := h.head_mem hfirst
    have haligned := h.aligned hmem
    have hinside := h.inside hmem
    simp only [Arena.putPrev_eq, haligned, hinside, ok_bind]
    rfl

/-- Lists that share no block with the links written stay linked. -/
theorem Threads.linked_of_ne (h : index.Threads a chains) {memory : Memory} {sizeClass : SizeClass}
    {touched : Block → Prop} (hspaced : Block.Spaced fun b => touched b ∨ b ∈ chains.members)
    (hchange : a.memory.Rewrites memory fun offset _ => ∃ b, touched b ∧ b.HasLinkAt offset)
    (hne : ∀ b ∈ chains sizeClass, ¬ touched b) : memory.Linked (chains sizeClass) := by
  have hkept : ∀ b ∈ chains sizeClass, ∀ offset, b.HasLinkAt offset →
      memory.load offset = a.memory.load offset := by
    intro b hb offset hlink
    have hlisted : b ∈ chains.members := Chains.mem_members.2 ⟨sizeClass, hb⟩
    apply hchange.load_eq (hspaced.link_mod (.inr hlisted) hlink)
    rintro word ⟨c, hc, hother⟩
    exact hne b hb (hspaced.eq_of_link (.inr hlisted) (.inl hc) hlink hother ▸ hc)
  exact (h.linked sizeClass).congr (fun b hb => hkept b hb _ (.inr rfl))
    fun b hb => hkept b hb _ (.inl rfl)

/-- An index with one more block at the head of a list. -/
theorem Threads.push (h : index.Threads a chains)
    (hspaced : Block.Spaced fun b => b = block ∨ b ∈ chains.members)
    (hinside : block.offset + 16 ≤ a.len) (hfresh : ∀ sizeClass, block ∉ chains sizeClass)
    {sizeClass : SizeClass} {memory : Memory}
    (hlinked : memory.Linked (block :: chains sizeClass))
    (hothers : ∀ d, d ≠ sizeClass → memory.Linked (chains d)) :
    Threads ⟨index.heads.set sizeClass (some block)⟩ { a with memory }
      (chains.push sizeClass block) := by
  refine ⟨fun d => ?_, fun d => ?_, fun d => ?_, ?_, hspaced.mono ?_, ?_, h.short⟩
  · by_cases hd : d = sizeClass
    · subst hd
      rw [Chains.push_self, getElem_heads_set, if_pos rfl]
      rfl
    · rw [Chains.push_of_ne hd, getElem_heads_set, if_neg hd]
      exact h.head_eq d
  · by_cases hd : d = sizeClass
    · subst hd
      rw [Chains.push_self]
      exact hlinked
    · rw [Chains.push_of_ne hd]
      exact hothers d hd
  · by_cases hd : d = sizeClass
    · subst hd
      rw [Chains.push_self]
      exact List.nodup_cons.2 ⟨hfresh d, h.nodup d⟩
    · rw [Chains.push_of_ne hd]
      exact h.nodup d
  · intro b c d hc hd
    rcases Chains.mem_push.1 hc with ⟨hclass, rfl⟩ | hc <;>
      rcases Chains.mem_push.1 hd with ⟨hother, hb⟩ | hd
    · exact hclass.trans hother.symm
    · exact absurd hd (hfresh d)
    · exact absurd (hb ▸ hc) (hfresh c)
    · exact h.class_eq hc hd
  · exact fun b hb => Chains.mem_members_push.1 hb
  · intro b c hb
    rcases Chains.mem_push.1 hb with ⟨-, rfl⟩ | hb
    · exact hinside
    · exact h.inside hb

/-- Inserting a block that is in no list pushes it on the list of its class. Only links of listed
    blocks and its own are written, and they name such blocks. -/
theorem Threads.insert (h : index.Threads a chains) (hheader : a.header block = .ok tag)
    (hspaced : Block.Spaced fun b => b = block ∨ b ∈ chains.members)
    (hinside : block.offset + 16 ≤ a.len)
    (hfresh : ∀ sizeClass, block ∉ chains sizeClass)
    {sizeClass : SizeClass} (hclass : SizeClass.ofSize tag.size = sizeClass) :
    ∃ after memory, index.insert a block = .ok (after, { a with memory }) ∧
      after.Threads { a with memory } (chains.push sizeClass block) ∧
      a.memory.Rewrites memory fun offset word =>
        (chains.push sizeClass block).HasLinkAt offset ∧
          Link.Names (· ∈ (chains.push sizeClass block).members) word := by
  have hhead : ∀ b ∈ (chains sizeClass).head?, b ∈ chains sizeClass := fun b hb =>
    List.mem_of_mem_head? hb
  have hlisted : ∀ b ∈ chains sizeClass, b ∈ chains.members := fun b hb =>
    Chains.mem_members.2 ⟨sizeClass, hb⟩
  have htouched : ∀ b, b ∈ some block ∨ b ∈ (chains sizeClass).head? →
      b = block ∨ b ∈ chains.members := fun b hb =>
    hb.imp (fun hb => (Option.mem_some.1 hb).symm) fun hb => hlisted b (hhead b hb)
  have hself : ∀ b, b ∈ (none : Option Block) ∨ b ∈ some block →
      b ∈ some block ∨ b ∈ (chains sizeClass).head? := fun b hb =>
    .inl (hb.resolve_left (nomatch ·))
  have hseam := hspaced.mono htouched
  have hchange := ((a.memory.rewrites_join_links (hseam.mono hself)).mono fun _ _ hword =>
    ⟨hword.1.imp fun b hb => ⟨hself b hb.1, hb.2⟩, hword.2.mono hself⟩).trans
      (Memory.rewrites_join_links _ hseam)
  have hlinked := (h.linked sizeClass).cons
    (List.nodup_cons.2 ⟨hfresh sizeClass, h.nodup sizeClass⟩) (hspaced.mono fun b hb =>
      (List.mem_cons.1 hb).imp_right (hlisted b))
  refine ⟨_, _, h.insert_eq hheader (hspaced.aligned (.inl rfl)) hinside hclass,
    h.push hspaced hinside hfresh hlinked fun d hd => ?_, hchange.mono ?_⟩
  · refine h.linked_of_ne (hspaced.mono ?_) (hchange.mono fun _ _ hword => hword.1) ?_
    · exact fun b hb => hb.elim (htouched b) .inr
    · rintro b hb (hother | hother)
      · exact hfresh d (Option.mem_some.1 hother ▸ hb)
      · exact hd (h.class_eq hb (hhead b hother))
  · rintro offset word ⟨⟨b, hb, hlink⟩, hword⟩
    refine ⟨?_, hword.mono fun b hb => Chains.mem_members_push.2 (htouched b hb)⟩
    exact Chains.hasLinkAt_of_mem (Chains.mem_members_push.2 (htouched b hb)) hlink

/-- The last write of an erasure: the back link of the block behind the one erased. -/
private theorem Threads.relink_next (h : index.Threads a chains) (after : FreeIndex)
    {next : Option Block} (prev : Option Block) (memory : Memory) :
    (∀ b ∈ next, ∃ sizeClass, b ∈ chains sizeClass) →
    (match next with
      | some next => do
        let a ← { a with memory }.putPrev next prev
        pure (after, a)
      | none => do
        let a ← pure { a with memory }
        pure (after, a)) =
      (.ok (after, { a with memory := memory.linkPrev next prev }) :
        Except Fault (FreeIndex × Arena)) := by
  intro hnext
  cases next with
  | none => rfl
  | some next =>
    obtain ⟨sizeClass, hmem⟩ := hnext next rfl
    have haligned := h.aligned hmem
    have hinside := h.inside hmem
    simp only [Arena.putPrev_eq, haligned, hinside, ok_bind, pure_eq_ok]

theorem Threads.erase_eq (h : index.Threads a chains) (hheader : a.header block = .ok tag)
    {sizeClass : SizeClass} (hclass : SizeClass.ofSize tag.size = sizeClass)
    {front rest : List Block} (hsplit : chains sizeClass = front ++ block :: rest) :
    index.erase a block = .ok (
      if front = [] then ⟨index.heads.set sizeClass rest.head?⟩ else index,
      { a with memory := a.memory.join front.getLast? rest.head? }) := by
  have hnext : ∀ b ∈ rest.head?, ∃ sizeClass, b ∈ chains sizeClass := fun b hb =>
    ⟨sizeClass, by simp [hsplit, List.mem_of_mem_head? hb]⟩
  rw [erase, hheader, ok_bind, h.link_eq hsplit, ok_bind]
  simp only [hclass]
  rcases List.eq_nil_or_concat front with rfl | ⟨init, prev, rfl⟩
  · have hhead : index.heads[sizeClass] = some block := by
      rw [h.head_eq, hsplit]
      rfl
    rw [hhead, if_pos rfl]
    simp only [List.getLast?_nil, Build.require_eq_ok, ok_bind, pure_eq_ok]
    exact h.relink_next _ none a.memory hnext
  · have hmem : prev ∈ chains sizeClass := by simp [hsplit]
    rw [List.concat_eq_append, List.getLast?_concat, if_neg (by simp)]
    simp only [Arena.putNext_eq (h.aligned hmem) (h.inside hmem) h.short, ok_bind, pure_eq_ok]
    exact h.relink_next _ (some prev) _ hnext

/-- Erasing a listed block drops it from its list, wherever in the list it is. Only links of listed
    blocks are written, and they name such blocks. -/
theorem Threads.erase (h : index.Threads a chains) (hheader : a.header block = .ok tag)
    {sizeClass : SizeClass} (hclass : SizeClass.ofSize tag.size = sizeClass)
    (hmem : block ∈ chains sizeClass) :
    ∃ after memory, index.erase a block = .ok (after, { a with memory }) ∧
      after.Threads { a with memory } (chains.without [block]) ∧
      a.memory.Rewrites memory fun offset word =>
        chains.HasLinkAt offset ∧ Link.Names (· ∈ chains.members) word := by
  obtain ⟨front, rest, hsplit⟩ := List.append_of_mem hmem
  have hnodup := h.nodup sizeClass
  have hothers := Chains.without_middle hsplit hnodup
  rw [hsplit] at hnodup
  have hkeep : ∀ b ∈ front ++ rest, b ∈ chains sizeClass := by
    rw [hsplit]
    simp +contextual [or_imp]
  have hends : ∀ b, b ∈ front.getLast? ∨ b ∈ rest.head? → b ∈ chains sizeClass := by
    rintro b (hb | hb)
    · exact hkeep b (List.mem_append_left _ (List.mem_of_mem_getLast? hb))
    · exact hkeep b (List.mem_append_right _ (List.mem_of_mem_head? hb))
  have hlisted : ∀ b ∈ chains sizeClass, b ∈ chains.members := fun b hb =>
    Chains.mem_members.2 ⟨sizeClass, hb⟩
  have hchange := a.memory.rewrites_join_links (h.spaced.mono fun b hb => hlisted b (hends b hb))
  have hne : ∀ {d}, d ≠ sizeClass → ∀ b ∈ [block], b ∉ chains d := by
    intro d hd b hb hother
    rw [List.mem_singleton.1 hb] at hother
    exact hd (h.class_eq hother hmem)
  have hdropped : ∀ b ∈ (chains.without [block]).members, b ∈ chains.members := fun _ hb =>
    (Chains.mem_members_without.1 hb).1
  refine ⟨_, _, h.erase_eq hheader hclass hsplit, ?_, hchange.mono ?_⟩
  · refine ⟨fun d => ?_, fun d => ?_, fun d => (h.nodup d).filter _, ?_, h.spaced.mono hdropped, ?_,
      h.short⟩
    · by_cases hd : d = sizeClass
      · subst hd
        rw [hothers]
        split
        · rename_i hfront
          rw [getElem_heads_set, if_pos rfl, hfront]
          rfl
        · rename_i hfront
          rw [h.head_eq, hsplit, List.head?_append_of_ne_nil _ hfront,
            List.head?_append_of_ne_nil _ hfront]
      · rw [Chains.without_eq_self (hne hd), ← h.head_eq]
        split
        · rw [getElem_heads_set, if_neg hd]
        · rfl
    · by_cases hd : d = sizeClass
      · subst hd
        have hlinked := h.linked d
        rw [hsplit] at hlinked
        rw [hothers]
        exact hlinked.erase (List.nodup_middle.1 hnodup).of_cons
          (h.spaced.mono fun b hb => hlisted b (hkeep b hb))
      · rw [Chains.without_eq_self (hne hd)]
        refine h.linked_of_ne (h.spaced.mono ?_) (hchange.mono fun _ _ hword => hword.1) ?_
        · exact fun b hb => hb.elim (fun hb => hlisted b (hends b hb)) id
        · exact fun b hb hother => hd (h.class_eq hb (hends b hother))
    · exact fun hc hd => h.class_eq (Chains.mem_without.1 hc).1 (Chains.mem_without.1 hd).1
    · exact fun hb => h.inside (Chains.mem_without.1 hb).1
  · rintro offset word ⟨⟨b, hb, hlink⟩, hword⟩
    exact ⟨⟨sizeClass, b, hends b hb, hlink⟩, hword.mono fun b hb => hlisted b (hends b hb)⟩

end FreeIndex

end BoundaryTag
