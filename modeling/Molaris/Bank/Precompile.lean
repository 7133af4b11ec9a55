import Molaris.Bank.Settlement

/-!
# The bank precompile beside the overlay

During an EVM execution the bank precompile's `Send` runs a `MsgSend` of `underlyingDenom`
against the bank at once, while the overlay keeps the balances it has cached. An address with no
pending delta is read from the bank, so its `GetBalance` follows every transfer. An address with
pending deltas is read from the cache, so its `GetBalance` agrees with the balance a `Commit`
would leave only while no transfer has moved it since.
-/

namespace Molaris.Bank

/-- `Contract.Send` as the bank sees it: the `MsgSend` it routes moves `amount` of
`underlyingDenom` from `fromAddress` to `toAddress` at once, and fails when `fromAddress` holds
less. -/
def Contract.send (ledger : Ledger) (fromAddress toAddress : Address) (amount : Nat) :
    Ledger × Option String :=
  ledger.send fromAddress toAddress amount

/-- One step of an EVM execution as the bank sees it. -/
inductive Step
  | call (c : Call)
  | send (fromAddress toAddress : Address) (amount : Nat)

/-- The overlay and the live ledger after a step: overlay calls read the live balances. -/
def Step.run : Manager × Ledger → Step → Manager × Ledger
  | (m, ledger), .call c => (m.call ledger.balances c, ledger)
  | (m, ledger), .send fromAddress toAddress amount =>
      (m, (Contract.send ledger fromAddress toAddress amount).1)

/-- The states an execution reaches by steps that `allowed` admits where they are taken. -/
def Runs (allowed : Manager × Ledger → Step → Prop) :
    Manager × Ledger → Manager × Ledger → Prop :=
  Relation.ReflTransGen fun state state' => ∃ step, allowed state step ∧ state' = step.run state

/-- `addr` has a pending delta in the journal. -/
def Pending (m : Manager) (addr : Address) : Prop :=
  addr ∈ (journal m.states).map BalanceChange.addr

/-- The steps that leave the live balance of `addr` alone while it has a pending delta. -/
def SparesPending (addr : Address) (state : Manager × Ledger) (step : Step) : Prop :=
  Pending state.1 addr → (step.run state).2.balances addr = state.2.balances addr

section Invariants

variable {addr : Address}

theorem DirtyTracks.cacheAgrees (bank : Address → Nat) :
    ∀ {states : List State}, DirtyTracks addr states →
      addr ∉ (journal states).map BalanceChange.addr → CacheAgrees bank addr states
  | [], _, _ => trivial
  | s :: rest, ⟨tracks, below⟩, untouched => by
      have clean : s.dirtyBalances addr = none :=
        Option.not_isSome_iff_eq_none.mp fun cached => untouched (tracks.mp cached)
      refine ⟨?_, below.cacheAgrees bank fun member => untouched ?_⟩
      · rw [deltaSum_eq_zero_of_not_mem untouched, Int.add_zero]
        simp [State.cached, clean]
      · simp only [journal_cons, List.map_append, List.mem_append]
        exact Or.inl member

theorem DirtyTracks.getBalance {m : Manager} (bank : Address → Nat)
    (tracks : DirtyTracks addr m.states) (untouched : ¬ Pending m addr) :
    (m.getBalance bank addr).1 = bank addr := by
  have := (tracks.cacheAgrees bank untouched).getBalance
  rwa [deltaSum_eq_zero_of_not_mem untouched, Int.add_zero] at this

theorem dirtyTracks_step (state : Manager × Ledger) (step : Step)
    (holds : DirtyTracks addr state.1.states) : DirtyTracks addr (step.run state).1.states := by
  rcases step with c | ⟨fromAddress, toAddress, amount⟩
  · exact (dirtyTracks_stackInvariant (fun _ _ => True) addr).call trivial holds
  · exact holds

theorem cacheAgrees_step (state : Manager × Ledger) {step : Step}
    (spares : SparesPending addr state step)
    (holds : DirtyTracks addr state.1.states ∧ CacheAgrees state.2.balances addr state.1.states) :
    CacheAgrees (step.run state).2.balances addr (step.run state).1.states := by
  obtain ⟨tracks, agrees⟩ := holds
  rcases step with c | ⟨fromAddress, toAddress, amount⟩
  · exact (cacheAgrees_stackInvariant _ addr).call rfl agrees
  · by_cases pending : Pending state.1 addr
    · exact agrees.congr (spares pending).symm
    · exact tracks.cacheAgrees _ pending

theorem dirtyTracks_runs {allowed : Manager × Ledger → Step → Prop}
    {start finish : Manager × Ledger} (run : Runs allowed start finish)
    (holds : DirtyTracks addr start.1.states) : DirtyTracks addr finish.1.states := by
  induction run with
  | refl => exact holds
  | tail _ step induction =>
      obtain ⟨step, _, rfl⟩ := step
      exact dirtyTracks_step _ step induction

theorem cacheAgrees_runs {start finish : Manager × Ledger}
    (run : Runs (SparesPending addr) start finish)
    (holds : DirtyTracks addr start.1.states ∧ CacheAgrees start.2.balances addr start.1.states) :
    DirtyTracks addr finish.1.states ∧ CacheAgrees finish.2.balances addr finish.1.states := by
  induction run with
  | refl => exact holds
  | tail _ step induction =>
      obtain ⟨step, spares, rfl⟩ := step
      exact ⟨dirtyTracks_step _ step induction.1, cacheAgrees_step _ spares induction⟩

end Invariants

/-- Along any execution that interleaves overlay calls with precompile sends, an address with no
pending delta has `GetBalance` equal to its live balance; and along an execution in which no send
moved the live balance of `addr` while it had a pending delta, `GetBalance(addr)` equals its live
balance plus its pending deltas, the balance a `Commit` would leave. -/
theorem getBalance_tracks_live (L : Ledger) (addr : Address) :
    (∀ m ledger, Runs (fun _ _ => True) (newManager, L) (m, ledger) → ¬ Pending m addr →
        (m.getBalance ledger.balances addr).1 = ledger.balances addr) ∧
      ∀ m ledger, Runs (SparesPending addr) (newManager, L) (m, ledger) →
        (m.getBalance ledger.balances addr).1 =
          ledger.balances addr + deltaSum addr (journal m.states) := by
  refine ⟨fun m ledger run untouched => ?_, fun m ledger run => ?_⟩
  · exact (dirtyTracks_runs run trivial).getBalance _ untouched
  · exact (cacheAgrees_runs run ⟨trivial, trivial⟩).2.getBalance

theorem getBalance_tracks_live_write_send :
    let L : Ledger := ⟨fun _ => 100, 0⟩
    let after := (Step.send (bytesToAddress [2]) (bytesToAddress [4]) 30).run
      ((Step.call (.setBalance (bytesToAddress [3]) 50)).run (newManager, L))
    Runs (fun _ _ => True) (newManager, L) after ∧ ¬ Pending after.1 (bytesToAddress [2]) ∧
      Runs (SparesPending (bytesToAddress [3])) (newManager, L) after ∧
      ((after.1.getBalance after.2.balances (bytesToAddress [2])).1 =
          after.2.balances (bytesToAddress [2]) ∧
        (after.1.getBalance after.2.balances (bytesToAddress [3])).1 =
          after.2.balances (bytesToAddress [3]) +
            deltaSum (bytesToAddress [3]) (journal after.1.states)) := by
  intro L after
  have journalAfter : journal after.1.states = [⟨bytesToAddress [3], 50 - 100⟩] :=
    Manager.newManager_setBalance_journal _ (by decide)
  have free : Runs (fun _ _ => True) (newManager, L) after :=
    (Relation.ReflTransGen.single ⟨_, trivial, rfl⟩).tail ⟨_, trivial, rfl⟩
  have spared : Runs (SparesPending (bytesToAddress [3])) (newManager, L) after :=
    (Relation.ReflTransGen.single ⟨_, nofun, rfl⟩).tail ⟨_, fun _ => by
      simp [Step.run, Contract.send, Ledger.send, Ledger.transfer, L,
        Function.update_noteq (show bytesToAddress [3] ≠ bytesToAddress [2] by decide),
        Function.update_noteq (show bytesToAddress [3] ≠ bytesToAddress [4] by decide)], rfl⟩
  have untouched : ¬ Pending after.1 (bytesToAddress [2]) := by
    simp [Pending, journalAfter, show bytesToAddress [2] ≠ bytesToAddress [3] by decide]
  exact ⟨free, untouched, spared,
    (getBalance_tracks_live L _).1 _ _ free untouched,
    (getBalance_tracks_live L _).2 _ _ spared⟩

theorem precompile_send_breaks_overlay :
    let L : Ledger := ⟨fun _ => 100, 0⟩
    let after := (Step.send (bytesToAddress [2]) (bytesToAddress [3]) 30).run
      ((Step.call (.setBalance (bytesToAddress [2]) 50)).run (newManager, L))
    Runs (fun _ _ => True) (newManager, L) after ∧
      (after.1.getBalance after.2.balances (bytesToAddress [2])).1 ≠
        after.2.balances (bytesToAddress [2]) +
          deltaSum (bytesToAddress [2]) (journal after.1.states) := by
  intro L after
  have journalAfter : journal after.1.states = [⟨bytesToAddress [2], 50 - 100⟩] :=
    Manager.newManager_setBalance_journal _ (by decide)
  refine ⟨(Relation.ReflTransGen.single ⟨_, trivial, rfl⟩).tail ⟨_, trivial, rfl⟩, ?_⟩
  rw [journalAfter]
  simp [after, L, Step.run, Contract.send, Ledger.send, Ledger.transfer, Manager.call,
    Manager.setBalance_cons, newManager, State.record_cached,
    Function.update_noteq (show bytesToAddress [2] ≠ bytesToAddress [3] by decide)]
end Molaris.Bank
