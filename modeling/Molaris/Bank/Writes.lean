import Molaris.Bank.Frames
import Mathlib.Data.List.Basic

/-!
# What a `SetBalance` writes

`SetBalance` reads the current balance through `getCurState` and records the change from it in
the top frame, unless the change is zero. A read after a write therefore answers the written
value, every other address keeps its answer, and only the top frame changes.

Along a whole run, each change the journal keeps for an address brings the bank's balance, plus
the deltas for that address up to it, to the value of the `SetBalance` that recorded it. Reverts
cut the journal back and snapshots start empty frames, but neither moves a running sum.
-/

namespace Molaris.Bank

namespace Manager

variable {bank : Address → Nat} {addr : Address}

theorem getCurState_eq (m : Manager) : m.getCurState.2 = ⟨m.getCurState.1 :: m.states.tail⟩ := by
  obtain ⟨_ | ⟨s, rest⟩⟩ := m <;> rfl

theorem getBalance_eq (m : Manager) (other : Address) :
    (m.getBalance bank other).1 = m.getCurState.1.cached bank other := by
  rw [← getCurState_getBalance, getCurState_eq, getBalance_cons]

theorem setBalance_eq (m : Manager) (newBalance : Int) :
    m.setBalance bank addr newBalance =
      ⟨(if newBalance = (m.getBalance bank addr).1 then m.getCurState.1
        else m.getCurState.1.record addr (newBalance - (m.getBalance bank addr).1) newBalance) ::
        m.states.tail⟩ := by
  have lazy : m.getCurState.2.setBalance bank addr newBalance = m.setBalance bank addr newBalance := by
    obtain ⟨_ | ⟨s, rest⟩⟩ := m <;> rfl
  rw [← lazy, getCurState_eq, setBalance_cons, getBalance_eq]
  by_cases same : newBalance = m.getCurState.1.cached bank addr
  · simp [same]
  · simp [same, Int.sub_eq_zero]

theorem getBalance_setBalance (m : Manager) (newBalance : Int) (other : Address) :
    ((m.setBalance bank addr newBalance).getBalance bank other).1 =
      if other = addr then newBalance else (m.getBalance bank other).1 := by
  simp only [setBalance_eq, getBalance_cons, getBalance_eq]
  split_ifs with unchanged same <;> simp_all [State.record_cached]

theorem getBalance_run_setBalance (m : Manager) (writes : List (Address × Int))
    (other : Address) :
    ((m.run bank (writes.map fun write => .setBalance write.1 write.2)).getBalance bank other).1 =
      ((writes.reverse.find? fun write => write.1 = other).map Prod.snd).getD
        (m.getBalance bank other).1 := by
  induction writes using List.reverseRecOn with
  | nil => rfl
  | append_singleton writes write induction =>
      rw [List.map_append, List.map_singleton, run_append_singleton, call]
      by_cases same : write.1 = other
      · simp [getBalance_setBalance, same]
      · simp [getBalance_setBalance, same, Ne.symm same, induction]

end Manager

/-- `SetBalance(addr, newBalance)` on any overlay, made while the bank reports `bank`, with `old`
the balance read before: `addr` then reads `newBalance` and every other address keeps its
answer; the top frame (the one `getCurState` pushes on an empty stack) gains the change
`(addr, newBalance - old)` at the end of its changes when `newBalance ≠ old` and nothing
otherwise, the frames below it stay, and the journal gains exactly that change. After
`SetBalance` calls in a row, each address reads the last value written to it. -/
theorem setBalance_read_over_write (bank : Address → Nat) (m : Manager) (addr : Address)
    (newBalance : Int) :
    let old := (m.getBalance bank addr).1
    let written := m.setBalance bank addr newBalance
    let change : List BalanceChange :=
      if newBalance = old then [] else [⟨addr, newBalance - old⟩]
    (∀ other, (written.getBalance bank other).1 =
        if other = addr then newBalance else (m.getBalance bank other).1) ∧
      (∃ top top' below, m.getCurState.2.states = top :: below ∧
        written.states = top' :: below ∧ top'.balanceChanges = top.balanceChanges ++ change) ∧
      journal written.states = journal m.states ++ change ∧
      ∀ (writes : List (Address × Int)) other,
        ((m.run bank (writes.map fun write => .setBalance write.1 write.2)).getBalance bank
          other).1 =
          ((writes.reverse.find? fun write => write.1 = other).map Prod.snd).getD
            (m.getBalance bank other).1 := by
  intro old written change
  have top : ∃ top', written.states = top' :: m.states.tail ∧
      top'.balanceChanges = m.getCurState.1.balanceChanges ++ change := by
    rw [show written = _ from Manager.setBalance_eq m newBalance]
    by_cases same : newBalance = old <;> simp [change, same, old]
  obtain ⟨top', split, recorded⟩ := top
  refine ⟨Manager.getBalance_setBalance m newBalance,
    ⟨_, top', _, by rw [Manager.getCurState_eq], split, recorded⟩, ?_,
    Manager.getBalance_run_setBalance m⟩
  have before : journal m.states = journal m.states.tail ++ m.getCurState.1.balanceChanges := by
    rw [← Manager.getCurState_journal m, Manager.getCurState_eq, journal_cons]
  rw [split, journal_cons, recorded, before, List.append_assoc]


section PartialSums

/-- Every prefix of the journal that ends in a change of `addr` brings `L addr`, plus the deltas
for `addr` in it, to a value that `written` admits. -/
def PartialSumsWritten (L : Address → Nat) (addr : Address) (written : Int → Prop)
    (states : List State) : Prop :=
  ∀ applied change, applied ++ [change] <+: journal states → change.addr = addr →
    written (L addr + deltaSum addr (applied ++ [change]))

/-- The calls made while the bank reports `L` whose `SetBalance` of `addr` writes a value that
`written` admits. -/
def WritesAdmitted (L : Address → Nat) (addr : Address) (written : Int → Prop)
    (bank : Address → Nat) (c : Call) : Prop :=
  bank = L ∧ ∀ newBalance, c = .setBalance addr newBalance → written newBalance

theorem partialSumsWritten_stackInvariant (L : Address → Nat) (addr : Address)
    (written : Int → Prop) :
    StackInvariant (WritesAdmitted L addr written)
      (fun states => CacheAgrees L addr states ∧ PartialSumsWritten L addr written states) where
  lazy := fun ⟨agrees, _⟩ => ⟨(cacheAgrees_stackInvariant L addr).lazy agrees,
    fun applied change prefixOf => by simp at prefixOf⟩
  record bank writtenAddr newBalance s rest admitted nonzero := fun ⟨agrees, sums⟩ => by
    obtain ⟨rfl, admits⟩ := admitted
    refine ⟨(cacheAgrees_stackInvariant bank addr).record bank writtenAddr newBalance s rest rfl
      nonzero agrees, fun applied change prefixOf same => ?_⟩
    rw [journal_record, List.prefix_concat_iff] at prefixOf
    rcases prefixOf with whole | earlier
    · obtain ⟨rfl, last⟩ := List.append_inj' whole rfl
      obtain rfl := List.singleton_inj.mp last
      obtain rfl : writtenAddr = addr := same
      rw [agrees.deltaSum_record]
      exact admits newBalance rfl
    · exact sums applied change earlier same
  push s rest := fun ⟨agrees, sums⟩ =>
    ⟨(cacheAgrees_stackInvariant L addr).push s rest agrees,
      fun applied change prefixOf => sums applied change (by simpa using prefixOf)⟩
  cut bank id states _ := fun ⟨agrees, sums⟩ =>
    ⟨agrees.drop _, fun applied change prefixOf =>
      sums applied change (prefixOf.trans (journal_drop_prefixOf states _))⟩

theorem deltaSum_eq_zero_or_last (addr : Address) (applied : List BalanceChange) :
    deltaSum addr applied = 0 ∨ ∃ init change, init ++ [change] <+: applied ∧
      change.addr = addr ∧ deltaSum addr applied = deltaSum addr (init ++ [change]) := by
  induction applied using List.reverseRecOn with
  | nil => exact .inl rfl
  | append_singleton applied change induction =>
      by_cases same : change.addr = addr
      · exact .inr ⟨applied, change, List.prefix_refl _, same, rfl⟩
      · have unchanged : deltaSum addr (applied ++ [change]) = deltaSum addr applied := by
          simp [same]
        rw [unchanged]
        rcases induction with zero | ⟨init, last, prefixOf, lastSame, sum⟩
        · exact .inl zero
        · exact .inr ⟨init, last, prefixOf.trans (List.prefix_append _ _), lastSame, sum⟩

end PartialSums

/-- In the state a run of calls leaves from `NewManager`, made while the bank holds `L`: every
prefix of the journal that ends in a change of `addr` brings `L addr`, plus the deltas for `addr`
in it (its deltas read bottom frame first, in call order within a frame), to the argument of a
`SetBalance(addr, ·)` call of the run; so when those arguments are non-negative, no prefix of the
journal that `Commit` replays takes the balance of `addr`, starting from `L addr`, below zero. -/
theorem journal_partial_sums_written (L : Address → Nat) (calls : List Call) (addr : Address) :
    let m := newManager.run L calls
    (∀ applied change, applied ++ [change] <+: journal m.states → change.addr = addr →
        ∃ newBalance, Call.setBalance addr newBalance ∈ calls ∧
          L addr + deltaSum addr (applied ++ [change]) = newBalance) ∧
      ((∀ newBalance, Call.setBalance addr newBalance ∈ calls → 0 ≤ newBalance) →
        ∀ applied, applied <+: journal m.states → 0 ≤ L addr + deltaSum addr applied) := by
  intro m
  have sums : PartialSumsWritten L addr (fun newBalance => Call.setBalance addr newBalance ∈ calls)
      m.states :=
    ((partialSumsWritten_stackInvariant L addr _).reaches
      (Manager.run_reaches newManager fun c member => ⟨rfl, fun _ same => same ▸ member⟩)
      ⟨trivial, fun _ _ prefixOf => by simp [newManager] at prefixOf⟩).2
  refine ⟨fun applied change prefixOf same => ⟨_, sums applied change prefixOf same, rfl⟩,
    fun nonneg applied prefixOf => ?_⟩
  rcases deltaSum_eq_zero_or_last addr applied with zero | ⟨init, change, last, same, sum⟩
  · omega
  · rw [sum]
    exact nonneg _ (sums init change (last.trans prefixOf) same)

end Molaris.Bank
