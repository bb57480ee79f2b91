import BoundaryTag.Proofs.Run.Step

namespace BoundaryTag

variable {region : UnreliableRegion BufferRegion}

/-- In a checked build, creating a heap over a buffer in the address space answers, whatever the
    buffer holds, and so does every valid call in every state of every run. -/
theorem answers_of_reachable (hspace : Region.Addressable region) :
    (∀ memory log, ∃ answer log',
      (Heap.create .checked region memory).run log = .ok answer log') ∧
    ∀ heap live, Reachable .checked region heap live → heap.pool.arena.build = .checked ∧
      ∀ call : Call, call.Valid heap live → ∀ log, ∃ answer after log',
        call.run.runOn heap log = .ok (answer, after) log' := by
  refine ⟨fun memory log => ?_, fun heap live h => ⟨h.build_eq, fun call hvalid log => ?_⟩⟩
  · obtain ⟨answer, log', hrun, -⟩ := Heap.create_spec .checked hspace memory log
    exact ⟨answer, log', hrun⟩
  · obtain ⟨blocks, chains, howns⟩ := h.owns
    obtain ⟨answer, after, log', hrun, -⟩ := howns.call_spec hvalid log
    exact ⟨answer, after, log', hrun⟩

theorem answers_after_sampleCalls : Region.Addressable sampleRegion ∧
    ∃ heap, replay .checked sampleRegion sampleCalls = some (heap, [66112, 66048, 65696]) ∧
      heap.pool.arena.build = .checked ∧
      ∃ answer after log', (Call.resize (some 66048) 5000).run.runOn heap #[] =
        .ok (answer, after) log' := by
  have hspace : Region.Addressable sampleRegion := by decide
  obtain ⟨heap, hreplay⟩ := replay_sampleCalls
  obtain ⟨hbuild, hcalls⟩ :=
    (answers_of_reachable hspace).2 heap _ (reachable_of_replay hreplay)
  have hvalid : (Call.resize (some 66048) 5000).Valid heap [66112, 66048, 65696] := by
    refine ⟨?_, trivial⟩
    rintro _ ⟨⟩
    decide
  exact ⟨hspace, heap, hreplay, hbuild, hcalls _ hvalid #[]⟩

end BoundaryTag
