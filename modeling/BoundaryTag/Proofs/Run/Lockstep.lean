import BoundaryTag.Proofs.Heap.Lockstep
import BoundaryTag.Proofs.Run.Session

namespace BoundaryTag

open Heap

/-- An address, or none, or the reason for a refusal. -/
abbrev Reply := Except HeapError (Option Nat)

/-- The reply with an address that is `base` bytes further on. -/
def Reply.shift (base : Nat) (reply : Reply) : Reply := reply.map (Option.map (base + ·))

namespace Call

variable {ρ : Type}

/-- The call about what is `base` bytes further on. -/
def shift (base : Nat) : Call → Call
  | resize address size => resize (address.map (base + ·)) size
  | release address => release (address.map (base + ·))
  | write address start count f => write (base + address) start count f
  | call@(allocate ..) | call@(allocateZeroed ..) | call@(allocateAligned ..) => call

/-- Makes a call in the form that tells the reason for a refusal, if the call has such a form. -/
def reply [Region ρ] : Call → HeapM ρ Reply
  | allocate size => (some <$> request size).run
  | allocateZeroed count size => (some <$> requestZeroed count size).run
  | allocateAligned align size => (some <$> requestAligned align size).run
  | call@(resize ..) | call@(release ..) | call@(write ..) => .ok <$> call.run

/-- No power of two above `limit` is asked for as an alignment. -/
def AlignsWithin (limit : Nat) : Call → Prop
  | allocateAligned align _ => IsPowerOfTwo align → align ≤ limit
  | allocate .. | allocateZeroed .. | resize .. | release .. | write .. => True

instance (limit : Nat) : (call : Call) → Decidable (call.AlignsWithin limit)
  | allocateAligned align _ => inferInstanceAs (Decidable (IsPowerOfTwo align → align ≤ limit))
  | allocate .. | allocateZeroed .. | resize .. | release .. | write .. => .isTrue trivial

end Call

namespace Heap

variable {ρ : Type} [Region ρ]

/-- Two heaps have the same words, lists, figures and audits. -/
structure Agrees {σ : Type} (heap : Heap ρ) (twin : Heap σ) : Prop where
  len_eq : twin.pool.arena.len = heap.pool.arena.len
  memory_eq : twin.pool.arena.memory = heap.pool.arena.memory
  index_eq : twin.pool.index = heap.pool.index
  stats_eq : ∃ stats, ∀ log, Heap.stats.runOn heap log = .ok (stats, heap) log ∧
    Heap.stats.runOn twin log = .ok (stats, twin) log
  audit_eq : ∃ report, ∀ log, Heap.audit.runOn heap log = .ok (report, heap) log ∧
    Heap.audit.runOn twin log = .ok (report, twin) log

omit [Region ρ] in
theorem runOn_granted_eq (request : RequestM ρ Nat) (heap : Heap ρ) (log : Array Event) :
    request.granted.runOn heap log =
      ((·.toOption.join) <$> (some <$> request).run).runOn heap log := by
  rw [RequestM.runOn_granted, HeapM.runOn_map,
    show ((some <$> request).run).runOn heap log = (some <$> request).runOn heap log from rfl,
    RequestM.runOn_map]
  cases request.runOn heap log with
  | ok state log' => rcases state with ⟨_ | _, _⟩ <;> rfl
  | error => rfl

/-- The form of a call that tells the reason for a refusal does the same work. -/
theorem runOn_reply (call : Call) (heap : Heap ρ) (log : Array Event) :
    call.run.runOn heap log = ((·.toOption.join) <$> call.reply).runOn heap log := by
  cases call with
  | allocate size => exact runOn_granted_eq _ heap log
  | allocateZeroed count size => exact runOn_granted_eq _ heap log
  | allocateAligned align size => exact runOn_granted_eq _ heap log
  | resize _ _ | release _ | write _ _ _ _ =>
    simp only [Call.reply, Functor.map_map, Except.toOption, Option.join_some, id_map']

variable {σ : Type} [Region σ] [GrowsByLength ρ] [GrowsByLength σ] {here there limit : Nat}
  {heap : Heap ρ} {twin : Heap σ} {live : List Nat} {blocks : List BlockInfo} {chains : Chains}
  {log : Array Event} {call : Call} {calls : List Call}

omit [Region ρ] [GrowsByLength ρ] [Region σ] [GrowsByLength σ] in
theorem SameVerdict.exists_shift {a b : Reply}
    (h : SameVerdict (Option.Rel (SameOffset here there)) a b) :
    ∃ reply : Reply, a = reply.shift here ∧ b = reply.shift there := by
  rcases h with ⟨⟨offset, rfl, rfl⟩ | _⟩ | error
  · exact ⟨.ok (some offset), rfl, rfl⟩
  · exact ⟨.ok none, rfl, rfl⟩
  · exact ⟨.error error, rfl, rfl⟩

theorem Matches.some {α β : Type} {rel : α → β → Prop} {first : RequestM ρ α}
    {second : RequestM σ β}
    (h : Matches here there (SameVerdict rel) (first.runOn heap log) (second.runOn twin log)) :
    Matches here there (SameVerdict (Option.Rel rel)) ((Option.some <$> first).runOn heap log)
      ((Option.some <$> second).runOn twin log) := by
  rw [map_eq_pure_bind, map_eq_pure_bind]
  refine h.bind_request ?_
  rintro a b after after' log' hab htwins
  exact .answered (.granted (.some hab)) htwins

theorem Matches.ok {α β : Type} {rel : α → β → Prop} {first : HeapM ρ α} {second : HeapM σ β}
    (h : Matches here there rel (first.runOn heap log) (second.runOn twin log)) :
    Matches here there (SameVerdict rel)
      ((.ok <$> first : HeapM ρ (Except HeapError α)).runOn heap log)
      ((.ok <$> second : HeapM σ (Except HeapError β)).runOn twin log) := by
  rw [map_eq_pure_bind, map_eq_pure_bind]
  refine h.bind ?_
  rintro a b after after' log' hab htwins
  exact .answered (.granted hab) htwins

/-- A call at an offset gets the same reply on both sides. -/
theorem Twins.reply (h : Twins here there heap twin) (hsound : heap.Sound blocks chains)
    (hlimit : call.AlignsWithin limit)
    (hmod : ∀ align, IsPowerOfTwo align → align ≤ limit → there % align = here % align)
    (log : Array Event) :
    Matches here there (SameVerdict (Option.Rel (SameOffset here there)))
      ((call.shift here).reply.runOn heap log) ((call.shift there).reply.runOn twin log) := by
  cases call with
  | allocate size => exact (h.request hsound.len_eq size log).some
  | allocateZeroed count size => exact (h.requestZeroed hsound.len_eq count size log).some
  | allocateAligned align size =>
    exact (h.requestAligned hsound (fun hpower => hmod align hpower (hlimit hpower)) size log).some
  | resize address size => exact (h.resize hsound.len_eq address size log).ok
  | release address =>
    refine Matches.ok ((h.release address log).bind ?_)
    rintro _ _ after after' log' - htwins
    exact .answered .none htwins
  | write address start count f =>
    refine Matches.ok ?_
    simp only [Call.run, HeapM.runOn_bind, HeapM.runOn_modify, HeapM.runOn_pure]
    rw [Nat.add_assoc, Nat.add_assoc]
    exact .answered .none (h.fill (address + start) count f)

/-- Valid calls at the same offsets get the same replies from twins, and leave twins. -/
theorem Twins.replies (h : Twins here there heap twin) (howns : heap.Owns live blocks chains)
    (hlimit : ∀ call ∈ calls, call.AlignsWithin limit)
    (hmod : ∀ align, IsPowerOfTwo align → align ≤ limit → there % align = here % align)
    (hvalid : heap.Accepts live log (calls.map fun call => .call (call.shift here))) :
    ∃ (replies : List Reply) (after : Heap ρ) (after' : Heap σ) (log' : Array Event),
      ((calls.map (Call.shift here)).mapM Call.reply).runOn heap log =
        .ok (replies.map (Reply.shift here), after) log' ∧
      ((calls.map (Call.shift there)).mapM Call.reply).runOn twin log =
        .ok (replies.map (Reply.shift there), after') log' ∧
      Twins here there after after' ∧ ∃ live blocks chains, after.Owns live blocks chains := by
  induction calls generalizing heap twin live blocks chains log with
  | nil => exact ⟨[], heap, twin, log, rfl, rfl, h, live, blocks, chains, howns⟩
  | cons call calls ih =>
    obtain ⟨hcall, hcalls⟩ := List.forall_mem_cons.1 hlimit
    obtain ⟨hfirst, hrest⟩ := hvalid
    obtain ⟨answer, middle, log', hrun, kept, ⟨infos, links, hmiddle, -⟩, -⟩ :=
      howns.call_spec hfirst log
    have hnext := hrest (.address answer) middle log'
    simp only [Use.run, HeapM.runOn_map, hrun, forall_const] at hnext
    have hreply := hrun
    rw [runOn_reply, HeapM.runOn_map] at hreply
    have hmatches := h.reply howns.sound hcall hmod log
    cases hleft : (call.shift here).reply.runOn heap log with
    | error fault log'' => simp [hleft] at hreply
    | ok state log'' =>
      obtain ⟨reply, after⟩ := state
      rw [hleft] at hreply hmatches
      obtain ⟨-, rfl, rfl⟩ : reply.toOption.join = answer ∧ after = middle ∧ log'' = log' := by
        simpa [and_assoc] using hreply
      obtain ⟨other, twin', hright, hverdict, htwins⟩ := hmatches.of_ok
      obtain ⟨reply, rfl, rfl⟩ := hverdict.exists_shift
      obtain ⟨replies, last, last', final, hleft', hright', hlast⟩ :=
        ih htwins hmiddle hcalls hnext
      refine ⟨reply :: replies, last, last', final, ?_, ?_, hlast⟩
      · simp only [List.map_cons, List.mapM_cons, HeapM.runOn_bind, hleft, hleft',
          HeapM.runOn_pure]
      · simp only [List.map_cons, List.mapM_cons, HeapM.runOn_bind, hright, hright',
          HeapM.runOn_pure]

theorem Twins.agrees (h : Twins here there heap twin) (hsound : heap.Sound blocks chains)
    (hmod : there % 16 = 0) : heap.Agrees twin := by
  have htwin := h.sound hsound hmod
  have hlen : twin.pool.arena.len = heap.pool.arena.len := congrArg (·.arena.len) h.pool_eq
  refine ⟨hlen, congrArg (·.arena.memory) h.pool_eq, congrArg (·.index) h.pool_eq,
    ⟨_, fun log => ⟨hsound.stats_eq log, ?_⟩⟩, ⟨_, fun log => ⟨hsound.audit_eq log, ?_⟩⟩⟩
  · rw [htwin.stats_eq, hlen]
  · rw [htwin.audit_eq]

end Heap

/-- A heap depends on a region that grants whatever fits for nothing but its room and where its base
    stands between multiples of the largest alignment asked for. -/
theorem sameReplies_of_mod_eq {ρ σ : Type} [Region ρ] [GrowsByLength ρ] [Region σ]
    [GrowsByLength σ] {region : ρ} {other : σ} {limit : Nat}
    (hlen : Region.len other = Region.len region)
    (hcapacity : GrowsInPlace.capacity other = GrowsInPlace.capacity region)
    (hspace : Region.Addressable region) (hother : Region.Addressable other)
    (hobliging : GrowsByLength.Obliging region) (hotherObliging : GrowsByLength.Obliging other)
    (hpower : IsPowerOfTwo limit) (hlimit : 16 ≤ limit)
    (hmod : Region.base other % limit = Region.base region % limit) (build : Build)
    (memory : Memory) (log : Array Event) :
    ∃ log', (∃ error, (create build region memory).run log = .ok (.error error) log' ∧
        (create build other memory).run log = .ok (.error error) log') ∨
      ∃ heap twin, (create build region memory).run log = .ok (.ok heap) log' ∧
        (create build other memory).run log = .ok (.ok twin) log' ∧
        ∀ calls : List Call, (∀ call ∈ calls, call.AlignsWithin limit) →
          heap.Accepts [] log' (calls.map fun call => .call (call.shift (Region.base region))) →
          ∃ (replies : List Reply) (after : Heap ρ) (after' : Heap σ) (last : Array Event),
            ((calls.map (Call.shift (Region.base region))).mapM Call.reply).runOn heap log' =
              .ok (replies.map (Reply.shift (Region.base region)), after) last ∧
            ((calls.map (Call.shift (Region.base other))).mapM Call.reply).runOn twin log' =
              .ok (replies.map (Reply.shift (Region.base other)), after') last ∧
            after.Agrees after' := by
  have hsteps : ∀ align, IsPowerOfTwo align → align ≤ limit →
      Region.base other % align = Region.base region % align := fun align halign hle =>
    Nat.ModEq.of_dvd (halign.dvd hpower hle) hmod
  have hstep : Region.base other % 16 = Region.base region % 16 :=
    hsteps 16 (isPowerOfTwo_shiftLeft 4) hlimit
  obtain ⟨log', hcreate⟩ :=
    create_twins hlen hcapacity hspace hother hobliging hotherObliging hstep build memory log
  refine ⟨log', hcreate.imp_right ?_⟩
  rintro ⟨heap, twin, hleft, hright, htwins⟩
  refine ⟨heap, twin, hleft, hright, fun calls haligns hvalid => ?_⟩
  obtain ⟨blocks, chains, howns⟩ := (Reachable.create hspace hleft).owns
  obtain ⟨replies, after, after', last, hrun, hrun', hafter, _, _, _, howns'⟩ :=
    htwins.replies howns haligns hsteps hvalid
  have hbase : Region.base other % 16 = 0 := by
    rw [hstep, ← hafter.base_eq]
    exact howns'.sound.base_mod
  exact ⟨replies, after, after', last, hrun, hrun', hafter.agrees howns'.sound hbase⟩

/-- As much room as in the sample buffer, in pages at another place. -/
def samplePages : ReservedRegion where
  base := 1048576
  reserved := 16384
  pageSize := pageBytes
  whole := by decide

/-- Calls of every kind at offsets, two of them refused: one for its alignment, one for its size. -/
def sampleOffsets : List Call :=
  [.allocate 100, .allocateZeroed 5 20, .allocateAligned 3 8, .allocateAligned 512 40,
    .resize (some 32) 120, .release (some 160), .allocate 50000,
    .write 512 4 36 fun i => .ofNat i, .allocate 8000]

theorem acceptsFrom_sampleBuffer : acceptsFrom .checked sampleBuffer
    (sampleOffsets.map fun call => .call (call.shift 65536)) = true := by
  decide +kernel

theorem sameReplies_sampleOffsets : ∃ heap twin log,
    (create .checked sampleBuffer).run #[] = .ok (.ok heap) log ∧
    (create .checked samplePages).run #[] = .ok (.ok twin) log ∧
    ∃ (replies : List Reply) (after : Heap BufferRegion) (after' : Heap ReservedRegion)
      (last : Array Event),
      ((sampleOffsets.map (Call.shift 65536)).mapM Call.reply).runOn heap log =
        .ok (replies.map (Reply.shift 65536), after) last ∧
      ((sampleOffsets.map (Call.shift 1048576)).mapM Call.reply).runOn twin log =
        .ok (replies.map (Reply.shift 1048576), after') last ∧
      after.Agrees after' := by
  obtain ⟨heap, log, hleft, hvalid⟩ := accepts_of_acceptsFrom acceptsFrom_sampleBuffer
  have hlen : Region.len samplePages = Region.len sampleBuffer := rfl
  have hspace : Region.Addressable sampleBuffer := by decide
  have hother : Region.Addressable samplePages := by decide
  have hpower : IsPowerOfTwo 4096 := by decide
  obtain ⟨log', hcreate⟩ :=
    sameReplies_of_mod_eq hlen rfl hspace hother trivial (fun _ _ => rfl) hpower (by decide) rfl
      .checked {} #[]
  rcases hcreate with ⟨error, hrefused, -⟩ | ⟨heap', twin, hleft', hright, hcalls⟩
  · rw [hleft] at hrefused
    cases hrefused
  · rw [hleft] at hleft'
    cases hleft'
    exact ⟨heap, twin, log, hleft, hright, hcalls sampleOffsets (by decide) hvalid⟩

end BoundaryTag
