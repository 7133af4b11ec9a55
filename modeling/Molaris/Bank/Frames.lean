import Molaris.Bank.Manager

/-!
# Invariants of the overlay's frames

Every call on the overlay either pushes the lazy bottom frame, rewrites the top frame through
`SetBalance`, pushes a `Snapshot` frame or cuts the stack back. `StackInvariant` names these four
cases once; every invariant of the reachable stacks below is proved by discharging them.

The main facts are that each frame's cached balances agree with the journal recorded in it and
below it, and that reverting to a snapshot restores both the balances and the journal seen
before the snapshot was taken.
-/

namespace Molaris.Bank

/-- A property of stacks that every call admitted by `allowed` preserves, given case by case. -/
structure StackInvariant (allowed : (Address → Nat) → Call → Prop)
    (P : List State → Prop) : Prop where
  lazy : P [] → P [State.empty]
  record : ∀ bank addr newBalance s rest, allowed bank (.setBalance addr newBalance) →
    newBalance - s.cached bank addr ≠ 0 → P (s :: rest) →
    P (s.record addr (newBalance - s.cached bank addr) newBalance :: rest)
  push : ∀ s rest, P (s :: rest) → P (⟨[], s.dirtyBalances⟩ :: s :: rest)
  cut : ∀ bank id states, allowed bank (.revertToSnapshot id) → P states →
    P (popToSize states id)

namespace StackInvariant

variable {allowed : (Address → Nat) → Call → Prop} {P : List State → Prop}

private theorem call_cons (invariant : StackInvariant allowed P) {bank : Address → Nat}
    {s : State} {rest : List State} {c : Call} (admitted : allowed bank c)
    (holds : P (s :: rest)) : P ((⟨s :: rest⟩ : Manager).call bank c).states := by
  cases c with
  | getBalance addr => simpa [Manager.call] using holds
  | setBalance addr newBalance =>
      simp only [Manager.call, Manager.setBalance_cons]
      split
      · exact holds
      · exact invariant.record bank addr newBalance s rest admitted ‹_› holds
  | snapshot => exact invariant.push s rest holds
  | revertToSnapshot id => exact invariant.cut bank id _ admitted holds

theorem call (invariant : StackInvariant allowed P) {bank : Address → Nat} {c : Call}
    {m : Manager} (admitted : allowed bank c) (holds : P m.states) :
    P (m.call bank c).states := by
  obtain ⟨_ | ⟨s, rest⟩⟩ := m
  · cases c with
    | revertToSnapshot id => exact invariant.cut bank id [] admitted holds
    | getBalance addr => exact invariant.lazy holds
    | setBalance addr newBalance =>
        exact invariant.call_cons admitted (invariant.lazy holds)
    | snapshot => exact invariant.push _ [] (invariant.lazy holds)
  · exact invariant.call_cons admitted holds

theorem reaches (invariant : StackInvariant allowed P) {m m' : Manager}
    (reach : Manager.Reaches allowed m m') (holds : P m.states) : P m'.states := by
  induction reach with
  | refl => exact holds
  | tail _ step induction =>
      obtain ⟨bank, c, admitted, rfl⟩ := step
      exact invariant.call admitted induction

end StackInvariant

section Frames

variable {bank : Address → Nat} {addr : Address}

/-- Every frame answers for `addr` the bank's balance plus the deltas recorded for `addr` in the
frame and in the frames below it. -/
def CacheAgrees (bank : Address → Nat) (addr : Address) : List State → Prop
  | [] => True
  | s :: rest =>
      s.cached bank addr = bank addr + deltaSum addr (journal (s :: rest)) ∧
        CacheAgrees bank addr rest

/-- Every frame has a dirty balance for `addr` exactly when a delta for `addr` is recorded in the
frame or below it. -/
def DirtyTracks (addr : Address) : List State → Prop
  | [] => True
  | s :: rest =>
      ((s.dirtyBalances addr).isSome ↔ addr ∈ (journal (s :: rest)).map BalanceChange.addr) ∧
        DirtyTracks addr rest

/-- No recorded delta is zero. -/
def NonzeroDeltas (states : List State) : Prop :=
  ∀ change ∈ journal states, change.delta ≠ 0

theorem State.cached_congr {bank' : Address → Nat} (s : State) (same : bank addr = bank' addr) :
    s.cached bank addr = s.cached bank' addr := by
  simp only [State.cached, same]

theorem CacheAgrees.congr {bank' : Address → Nat} (same : bank addr = bank' addr) :
    ∀ {states : List State}, CacheAgrees bank addr states → CacheAgrees bank' addr states
  | [], _ => trivial
  | s :: _, ⟨top, below⟩ =>
      ⟨by rw [← s.cached_congr same, ← same]; exact top, CacheAgrees.congr same below⟩

theorem CacheAgrees.drop : ∀ {states : List State} (n : Nat),
    CacheAgrees bank addr states → CacheAgrees bank addr (states.drop n)
  | [], _, holds => by simpa using holds
  | _ :: _, 0, holds => holds
  | _ :: _, n + 1, holds => CacheAgrees.drop n holds.2

theorem DirtyTracks.drop : ∀ {states : List State} (n : Nat),
    DirtyTracks addr states → DirtyTracks addr (states.drop n)
  | [], _, holds => by simpa using holds
  | _ :: _, 0, holds => holds
  | _ :: _, n + 1, holds => DirtyTracks.drop n holds.2

theorem CacheAgrees.frame {s : State} {lower : List State} :
    ∀ {upper : List State}, CacheAgrees bank addr (upper ++ s :: lower) →
      s.cached bank addr = bank addr + deltaSum addr (journal (s :: lower))
  | [], holds => holds.1
  | _ :: _, holds => CacheAgrees.frame holds.2

theorem CacheAgrees.getBalance {m : Manager} (agrees : CacheAgrees bank addr m.states) :
    (m.getBalance bank addr).1 = bank addr + deltaSum addr (journal m.states) := by
  obtain ⟨_ | ⟨s, rest⟩⟩ := m
  · simp
  · simpa using agrees.1

theorem CacheAgrees.deltaSum_record {s : State} {rest : List State}
    (agrees : CacheAgrees bank addr (s :: rest)) (newBalance : Int) :
    bank addr + deltaSum addr (journal (s :: rest) ++ [⟨addr, newBalance - s.cached bank addr⟩]) =
      newBalance := by
  have top := agrees.1
  simp only [deltaSum_append, deltaSum_cons, deltaSum_nil, if_true]
  omega

theorem cacheAgrees_stackInvariant (L : Address → Nat) (addr : Address) :
    StackInvariant (fun bank _ => bank addr = L addr) (CacheAgrees L addr) where
  lazy _ := ⟨by simp, trivial⟩
  record bank written newBalance s rest sameBank _ holds := by
    refine ⟨?_, holds.2⟩
    by_cases same : addr = written
    · subst written
      rw [State.record_cached, if_pos rfl, journal_record, s.cached_congr sameBank]
      exact (holds.deltaSum_record newBalance).symm
    · simpa [State.record_cached, same, Ne.symm same] using holds.1
  push s rest holds := ⟨by simpa [State.cached] using holds.1, holds⟩
  cut _ _ _ _ holds := holds.drop _

theorem dirtyTracks_stackInvariant (allowed : (Address → Nat) → Call → Prop)
    (addr : Address) : StackInvariant allowed (DirtyTracks addr) where
  lazy _ := ⟨by simp, trivial⟩
  record bank written newBalance s rest _ _ holds := by
    refine ⟨?_, holds.2⟩
    by_cases same : addr = written
    · subst written
      simp [State.record]
    · simpa [State.record, Function.update_noteq same, same] using holds.1
  push s rest holds := ⟨by simpa using holds.1, holds⟩
  cut _ _ _ _ holds := holds.drop _

theorem nonzeroDeltas_stackInvariant (allowed : (Address → Nat) → Call → Prop) :
    StackInvariant allowed NonzeroDeltas where
  lazy _ := by simp [NonzeroDeltas]
  record bank written newBalance s rest _ nonzero holds := by
    intro change member
    simp only [journal_cons, State.record_balanceChanges, List.mem_append,
      List.mem_singleton] at member
    rcases member with below | earlier | rfl
    · exact holds change (by simp [below])
    · exact holds change (by simp [earlier])
    · exact nonzero
  push s rest holds := by simpa [NonzeroDeltas] using holds
  cut _ id states _ holds := fun change member =>
    holds change ((journal_drop_prefixOf states _).subset member)

end Frames

/-- In every state reached from `NewManager` while the bank holds `L`, every frame caches for
every address the bank's balance plus the deltas recorded for it in that frame and the frames
below it (the stack `upper ++ s :: lower` lists frames top first, so `s :: lower` are the frames
`0..k` of a frame `s` of index `k`); `GetBalance` answers the bank's balance plus all the journal's
deltas, and no recorded delta is zero. -/
theorem cache_agrees_with_journal (L : Address → Nat) {m : Manager}
    (reach : Manager.Reaches (fun bank _ => bank = L) newManager m) (addr : Address) :
    (∀ upper s lower, m.states = upper ++ s :: lower →
        s.cached L addr = L addr + deltaSum addr (journal (s :: lower))) ∧
      (m.getBalance L addr).1 = L addr + deltaSum addr (journal m.states) ∧
      ∀ change ∈ journal m.states, change.delta ≠ 0 := by
  have agrees : CacheAgrees L addr m.states :=
    (cacheAgrees_stackInvariant L addr).reaches
      (reach.mono fun _ _ ⟨bank, c, sameBank, step⟩ =>
        ⟨bank, c, congrFun sameBank addr, step⟩) trivial
  exact ⟨fun upper s lower split => (split ▸ agrees).frame, agrees.getBalance,
    (nonzeroDeltas_stackInvariant _).reaches reach (by simp [NonzeroDeltas, newManager])⟩

theorem cache_agrees_after_snapshot :
    let m := (newManager.setBalance (fun _ => 7) (bytesToAddress [2]) 5).snapshot.2
    Manager.Reaches (fun bank _ => bank = fun _ => 7) newManager m ∧
      ((∀ upper s lower, m.states = upper ++ s :: lower →
          s.cached (fun _ => 7) (bytesToAddress [2]) =
            (7 : Nat) + deltaSum (bytesToAddress [2]) (journal (s :: lower))) ∧
        (m.getBalance (fun _ => 7) (bytesToAddress [2])).1 =
          (7 : Nat) + deltaSum (bytesToAddress [2]) (journal m.states) ∧
        ∀ change ∈ journal m.states, change.delta ≠ 0) := by
  intro m
  have reach : Manager.Reaches (fun bank _ => bank = fun _ => 7) newManager m :=
    (Relation.ReflTransGen.single ⟨_, .setBalance (bytesToAddress [2]) 5, rfl, rfl⟩).tail
      ⟨_, .snapshot, rfl, rfl⟩
  exact ⟨reach, cache_agrees_with_journal _ reach _⟩

section Revert

/-- The stacks that still hold `base` at the bottom, under at least one frame. -/
def KeepsBase (base states : List State) : Prop :=
  ∃ upper, upper ≠ [] ∧ states = upper ++ base

theorem keepsBase_stackInvariant (base : List State) :
    StackInvariant (fun _ c => ∀ id, c = .revertToSnapshot id → base.length < id)
      (KeepsBase base) where
  lazy := fun ⟨upper, nonempty, split⟩ => absurd (List.append_eq_nil.mp split.symm).1 nonempty
  record _ _ _ s rest _ _ := fun ⟨upper, nonempty, split⟩ => by
    obtain _ | ⟨top, upper⟩ := upper
    · exact absurd rfl nonempty
    · obtain ⟨rfl, rfl⟩ := List.cons_eq_cons.mp split
      exact ⟨_ :: upper, List.cons_ne_nil _ _, rfl⟩
  push _ _ := fun ⟨upper, _, split⟩ => ⟨_ :: upper, List.cons_ne_nil _ _, by rw [split]; rfl⟩
  cut _ id _ later := fun ⟨upper, nonempty, split⟩ => by
    have above := later id rfl
    have cutBelowUpper : (upper ++ base).length - id < upper.length := by
      have : 0 < upper.length := List.length_pos.mpr nonempty
      simp only [List.length_append]
      omega
    refine ⟨upper.drop ((upper ++ base).length - id), ?_, ?_⟩
    · simpa [List.drop_eq_nil_iff] using cutBelowUpper
    · rw [split, popToSize, List.drop_append_of_le_length (Nat.le_of_lt cutBelowUpper)]

theorem Manager.snapshot_eq (m : Manager) :
    m.snapshot = (m.getCurState.2.states.length,
      ⟨⟨[], m.getCurState.1.dirtyBalances⟩ :: m.getCurState.2.states⟩) := by
  obtain ⟨_ | ⟨s, rest⟩⟩ := m <;> rfl

theorem Manager.getCurState_getBalance (bank : Address → Nat) (m : Manager) (addr : Address) :
    (m.getCurState.2.getBalance bank addr).1 = (m.getBalance bank addr).1 := by
  obtain ⟨_ | ⟨s, rest⟩⟩ := m <;> rfl

theorem Manager.getCurState_journal (m : Manager) :
    journal m.getCurState.2.states = journal m.states := by
  obtain ⟨_ | ⟨s, rest⟩⟩ := m <;> rfl

/-- If `Snapshot` returns `id` in a state `m`, then after any calls that revert only to later
snapshots, `RevertToSnapshot(id)` gives back `m`'s balances for every address and `m`'s journal,
so nothing recorded after the snapshot is replayed. -/
theorem revertToSnapshot_restores (L : Address → Nat) (m : Manager) {later : Manager}
    (reach : Manager.Reaches (fun _ c => ∀ id, c = .revertToSnapshot id → m.snapshot.1 < id)
      m.snapshot.2 later) :
    (∀ addr, ((later.revertToSnapshot m.snapshot.1).getBalance L addr).1 =
        (m.getBalance L addr).1) ∧
      journal (later.revertToSnapshot m.snapshot.1).states = journal m.states := by
  rw [Manager.snapshot_eq] at reach ⊢
  obtain ⟨upper, _, split⟩ :=
    (keepsBase_stackInvariant _).reaches reach ⟨[_], List.cons_ne_nil _ _, rfl⟩
  have restored : (later.revertToSnapshot m.getCurState.2.states.length) = m.getCurState.2 := by
    simp only [Manager.revertToSnapshot, popToSize, split, List.length_append,
      Nat.add_sub_cancel, List.drop_left]
  rw [restored]
  exact ⟨fun addr => m.getCurState_getBalance L addr, m.getCurState_journal⟩

theorem revertToSnapshot_undoes_write :
    let m := newManager.setBalance (fun _ => 7) (bytesToAddress [2]) 5
    let later := m.snapshot.2.setBalance (fun _ => 7) (bytesToAddress [2]) 0
    Manager.Reaches (fun _ c => ∀ id, c = .revertToSnapshot id → m.snapshot.1 < id)
        m.snapshot.2 later ∧
      (∀ addr, ((later.revertToSnapshot m.snapshot.1).getBalance (fun _ => 7) addr).1 =
          (m.getBalance (fun _ => 7) addr).1) ∧
        journal (later.revertToSnapshot m.snapshot.1).states = journal m.states := by
  intro m later
  have reach : Manager.Reaches (fun _ c => ∀ id, c = .revertToSnapshot id → m.snapshot.1 < id)
      m.snapshot.2 later :=
    Relation.ReflTransGen.single ⟨fun _ => 7, .setBalance (bytesToAddress [2]) 0, nofun, rfl⟩
  exact ⟨reach, revertToSnapshot_restores _ m reach⟩

end Revert

end Molaris.Bank
