import Molaris.Bank.Frames
import Molaris.Bank.Keeper

/-!
# Replaying the journal

`Commit` walks the frames bottom to top and each frame's `balanceChanges` in order, turning a
credit into a mint and a send to the account, and a debit into a send to the module account and
a burn. It returns at the first error and rolls nothing back.

Bounded balances keep every recorded delta nonzero and below `2 ^ 256`, so the coins `Commit`
builds never panic. When a keeper call fails, the ledger is the one the calls made so far left.
-/

namespace Molaris.Bank

variable {σ : Type}

/-- `if err := call; err != nil { return err }`: runs `next` on the ledger a step left unless the
step panicked (`.error`) or returned an error. -/
def continueWith (result : Except String (σ × Option String))
    (next : σ → Except String (σ × Option String)) : Except String (σ × Option String) :=
  match result with
  | .error panic => .error panic
  | .ok (ledger, some err) => .ok (ledger, some err)
  | .ok (ledger, none) => next ledger

/-- One iteration of `Commit`'s loop, `switch change.Delta.Sign()`: a credit mints the amount
into the evm module account and sends it to the address, a debit sends it to the module account
and burns it, and a zero delta does nothing. -/
def replayChange (k : BankKeeper σ) (ledger : σ) (change : BalanceChange) :
    Except String (σ × Option String) :=
  if 0 < change.delta then
    (changeCoins change.delta).bind fun amount =>
      continueWith (.ok (k.mintCoins ledger amount)) fun ledger =>
        .ok (k.sendCoinsFromModuleToAccount ledger change.addr amount)
  else if change.delta < 0 then
    (changeCoins (-change.delta)).bind fun amount =>
      continueWith (.ok (k.sendCoinsFromAccountToModule ledger change.addr amount)) fun ledger =>
        .ok (k.burnCoins ledger amount)
  else .ok (ledger, none)

/-- `for j, change := range s.balanceChanges`. -/
def replayChanges (k : BankKeeper σ) : σ → List BalanceChange → Except String (σ × Option String)
  | ledger, [] => .ok (ledger, none)
  | ledger, change :: changes =>
      continueWith (replayChange k ledger change) fun ledger => replayChanges k ledger changes

/-- `for i := 0; i < m.states.Size(); i++`, over the frames `PeekAt(i)`, bottom first. -/
def replayStates (k : BankKeeper σ) : σ → List State → Except String (σ × Option String)
  | ledger, [] => .ok (ledger, none)
  | ledger, s :: states =>
      continueWith (replayChanges k ledger s.balanceChanges) fun ledger =>
        replayStates k ledger states

/-- `Commit`, with the ledger it leaves and the error it returns, or the panic it raises
(`.error`); the loops that only log balances are left out. -/
def Manager.commit (k : BankKeeper σ) (ledger : σ) (m : Manager) :
    Except String (σ × Option String) × Manager :=
  let (_, m) := m.getCurState
  (replayStates k ledger m.states.reverse, m)

section Replay

variable {k : BankKeeper σ}

@[simp] theorem continueWith_none (ledger : σ) (next : σ → Except String (σ × Option String)) :
    continueWith (.ok (ledger, none)) next = next ledger := rfl

theorem continueWith_assoc (result : Except String (σ × Option String))
    (next after : σ → Except String (σ × Option String)) :
    continueWith (continueWith result next) after =
      continueWith result fun ledger => continueWith (next ledger) after := by
  rcases result with panic | ⟨ledger, _ | err⟩ <;> rfl

theorem continueWith_done (result : Except String (σ × Option String)) :
    continueWith result (fun ledger => .ok (ledger, none)) = result := by
  rcases result with panic | ⟨ledger, _ | err⟩ <;> rfl

theorem replayChanges_append (ledger : σ) (applied later : List BalanceChange) :
    replayChanges k ledger (applied ++ later) =
      continueWith (replayChanges k ledger applied) fun ledger =>
        replayChanges k ledger later := by
  induction applied generalizing ledger with
  | nil => rfl
  | cons change applied induction =>
      simp only [List.cons_append, replayChanges.eq_2, continueWith_assoc, induction]

theorem replayStates_append (ledger : σ) (lower upper : List State) :
    replayStates k ledger (lower ++ upper) =
      continueWith (replayStates k ledger lower) fun ledger =>
        replayStates k ledger upper := by
  induction lower generalizing ledger with
  | nil => rfl
  | cons s lower induction =>
      simp only [List.cons_append, replayStates.eq_2, continueWith_assoc, induction]

theorem replayStates_reverse (ledger : σ) (states : List State) :
    replayStates k ledger states.reverse = replayChanges k ledger (journal states) := by
  induction states generalizing ledger with
  | nil => rfl
  | cons s rest induction =>
      simp only [List.reverse_cons, replayStates_append, induction, journal_cons,
        replayChanges_append, replayStates, continueWith_done]

theorem commit_replays (ledger : σ) (m : Manager) :
    (m.commit k ledger).1 = replayChanges k ledger (journal m.states) := by
  simp only [Manager.commit, replayStates_reverse, m.getCurState_journal]

end Replay

section Bounds

/-- Every recorded delta is nonzero and below `2 ^ 256` in absolute value, and every frame caches
balances in `[0, 2 ^ 256)`. -/
def DeltasInRange (states : List State) : Prop :=
  (∀ change ∈ journal states, change.delta ≠ 0 ∧ change.delta.natAbs < 2 ^ 256) ∧
    ∀ s ∈ states, ∀ addr balance, s.dirtyBalances addr = some balance →
      0 ≤ balance ∧ balance < 2 ^ 256

/-- The calls made while the bank reports balances below `2 ^ 256`, setting balances in
`[0, 2 ^ 256)`. -/
def InRangeCall (bank : Address → Nat) (c : Call) : Prop :=
  (∀ addr, bank addr < 2 ^ 256) ∧ c.Sets fun balance => 0 ≤ balance ∧ balance < 2 ^ 256

theorem State.cached_in_range {bank : Address → Nat} {s : State} {addr : Address}
    (bankBounded : bank addr < 2 ^ 256)
    (dirtyBounded : ∀ balance, s.dirtyBalances addr = some balance →
      0 ≤ balance ∧ balance < 2 ^ 256) :
    0 ≤ s.cached bank addr ∧ s.cached bank addr < 2 ^ 256 := by
  unfold State.cached
  split
  · exact dirtyBounded _ ‹_›
  · omega

theorem deltasInRange_stackInvariant : StackInvariant InRangeCall DeltasInRange where
  lazy _ := ⟨by simp, by simp [State.empty]⟩
  record bank written newBalance s rest admitted nonzero holds := by
    have cachedBounded := State.cached_in_range (admitted.1 written)
      (holds.2 s (List.mem_cons_self _ _) written)
    have newBounded : 0 ≤ newBalance ∧ newBalance < 2 ^ 256 := admitted.2
    refine ⟨fun change member => ?_, fun frame member addr balance dirty => ?_⟩
    · simp only [journal_cons, State.record_balanceChanges, List.mem_append,
        List.mem_singleton] at member
      rcases member with below | earlier | rfl
      · exact holds.1 change (by simp [below])
      · exact holds.1 change (by simp [earlier])
      · exact ⟨nonzero, by dsimp only; omega⟩
    · rcases List.mem_cons.mp member with rfl | lower
      · by_cases same : addr = written
        · subst written
          simp only [State.record, Function.update_same, Option.some.injEq] at dirty
          exact dirty ▸ newBounded
        · exact holds.2 s (List.mem_cons_self _ _) addr balance
            (by simpa [State.record, Function.update_noteq same] using dirty)
      · exact holds.2 frame (List.mem_cons_of_mem _ lower) addr balance dirty
  push s rest holds := by
    refine ⟨by simpa using holds.1, fun frame member => ?_⟩
    rcases List.mem_cons.mp member with rfl | lower
    · exact holds.2 s (List.mem_cons_self _ _)
    · exact holds.2 frame lower
  cut _ _ states _ holds :=
    ⟨fun change member => holds.1 change ((journal_drop_prefixOf states _).subset member),
      fun frame member => holds.2 frame (List.mem_of_mem_drop member)⟩

theorem continueWith_ok (step : σ × Option String)
    {next : σ → Except String (σ × Option String)} (returns : ∀ ledger, ∃ result,
      next ledger = .ok result) : ∃ result, continueWith (.ok step) next = .ok result := by
  rcases step with ⟨ledger, _ | err⟩
  · exact returns ledger
  · exact ⟨_, rfl⟩

theorem replayChange_ok (k : BankKeeper σ) (ledger : σ) {change : BalanceChange}
    (bounded : change.delta.natAbs < 2 ^ 256) :
    ∃ result, replayChange k ledger change = .ok result := by
  unfold replayChange
  split
  · rw [changeCoins_of_pos ‹_› bounded]
    exact continueWith_ok _ fun _ => ⟨_, rfl⟩
  · split
    · rw [changeCoins_of_pos (by omega) (by simpa using bounded)]
      exact continueWith_ok _ fun _ => ⟨_, rfl⟩
    · exact ⟨_, rfl⟩

theorem replayChanges_ok (k : BankKeeper σ) {changes : List BalanceChange}
    (bounded : ∀ change ∈ changes, change.delta.natAbs < 2 ^ 256) (ledger : σ) :
    ∃ result, replayChanges k ledger changes = .ok result := by
  induction changes generalizing ledger with
  | nil => exact ⟨_, rfl⟩
  | cons change changes induction =>
      obtain ⟨⟨after, err⟩, replayed⟩ := replayChange_ok k ledger (bounded change (by simp))
      simp only [replayChanges, replayed]
      cases err with
      | none => exact induction (fun other member => bounded other (by simp [member])) after
      | some err => exact ⟨_, rfl⟩

/-- In every state reached while the bank reports balances below `2 ^ 256` and `SetBalance` is
given balances in `[0, 2 ^ 256)`, every journal delta is nonzero and below `2 ^ 256` in absolute
value, so the amount `Commit` passes to `NewIntFromBigInt` and `NewCoin` lies in `[1, 2 ^ 256)`,
its zero-delta branch is never taken, and it returns without a panic for every keeper. -/
theorem commit_amounts_in_range {m : Manager}
    (reach : Manager.Reaches InRangeCall newManager m) :
    (∀ change ∈ journal m.states, change.delta ≠ 0 ∧ change.delta.natAbs < 2 ^ 256) ∧
      ∀ {σ : Type} (k : BankKeeper σ) (ledger : σ), ∃ result, (m.commit k ledger).1 = .ok result := by
  have inRange : DeltasInRange m.states :=
    deltasInRange_stackInvariant.reaches reach ⟨by simp [newManager], by simp [newManager]⟩
  refine ⟨inRange.1, fun k ledger => ?_⟩
  rw [commit_replays]
  exact replayChanges_ok k (fun change member => (inRange.1 change member).2) ledger

theorem commit_amounts_in_range_write :
    let m := newManager.setBalance (fun _ => 7) (bytesToAddress [2]) 5
    Manager.Reaches InRangeCall newManager m ∧
      (∀ change ∈ journal m.states, change.delta ≠ 0 ∧ change.delta.natAbs < 2 ^ 256) ∧
        ∀ {σ : Type} (k : BankKeeper σ) (ledger : σ), ∃ result,
          (m.commit k ledger).1 = .ok result := by
  intro m
  have reach : Manager.Reaches InRangeCall newManager m :=
    Relation.ReflTransGen.single ⟨fun _ => 7, .setBalance (bytesToAddress [2]) 5,
      ⟨fun _ => show 7 < 2 ^ 256 by decide, show (0 : Int) ≤ 5 ∧ (5 : Int) < 2 ^ 256 by omega⟩,
      rfl⟩
  exact ⟨reach, commit_amounts_in_range reach⟩

end Bounds

section Failure

variable {k : BankKeeper σ}

theorem replayChanges_error {ledger ledger' : σ} {err : String} :
    ∀ {changes : List BalanceChange}, replayChanges k ledger changes = .ok (ledger', some err) →
      ∃ applied failing rest mid, changes = applied ++ failing :: rest ∧
        replayChanges k ledger applied = .ok (mid, none) ∧
        replayChange k mid failing = .ok (ledger', some err)
  | [], replayed => by cases replayed
  | change :: changes, replayed => by
      simp only [replayChanges] at replayed
      rcases first : replayChange k ledger change with panic | ⟨after, _ | stopped⟩ <;>
        rw [first] at replayed
      · cases replayed
      · obtain ⟨applied, failing, rest, mid, split, done, failed⟩ := replayChanges_error replayed
        refine ⟨change :: applied, failing, rest, mid, by rw [split]; rfl, ?_, failed⟩
        simp only [replayChanges, first, continueWith_none, done]
      · cases replayed
        exact ⟨[], change, changes, ledger, rfl, rfl, first⟩

/-- If `Commit` returns an error, it returns it from the first journal change whose keeper calls
fail: every change before it was replayed in full on the ledger as the keeper left it, and the
failing change's calls were made on top of that. Nothing is rolled back. -/
theorem commit_error_after_applied (ledger : σ) (m : Manager) {ledger' : σ} {err : String}
    (failed : (m.commit k ledger).1 = .ok (ledger', some err)) :
    ∃ applied failing rest mid, journal m.states = applied ++ failing :: rest ∧
      replayChanges k ledger applied = .ok (mid, none) ∧
      replayChange k mid failing = .ok (ledger', some err) := by
  rw [commit_replays] at failed
  exact replayChanges_error failed

/-- The bank's own keeper with the evm module account at `bytesToAddress [1]`, except that it
refuses every send to an account (a blocked address). -/
def blockedKeeper : BankKeeper Ledger :=
  { Ledger.keeper (bytesToAddress [1]) with
    sendCoinsFromModuleToAccount := fun l _ _ => (l, some "blocked") }

theorem blockedKeeper_commit_credit :
    ((newManager.setBalance (fun _ => 0) (bytesToAddress [2]) 5).commit blockedKeeper
        (⟨fun _ => 0, 0⟩ : Ledger)).1 =
      .ok ((⟨fun _ => 0, 0⟩ : Ledger).mint (bytesToAddress [1]) 5, some "blocked") := by
  rw [commit_replays, Manager.newManager_setBalance_journal _ (by decide)]
  simp [replayChanges, replayChange, changeCoins_of_pos (show (0 : Int) < 5 by decide) (by decide),
    continueWith, blockedKeeper, Ledger.keeper, Except.bind, Ledger.underlyingAmount]

theorem commit_error_after_applied_blocked :
    let m := newManager.setBalance (fun _ => 0) (bytesToAddress [2]) 5
    let minted := (⟨fun _ => 0, 0⟩ : Ledger).mint (bytesToAddress [1]) 5
    (m.commit blockedKeeper ⟨fun _ => 0, 0⟩).1 = .ok (minted, some "blocked") ∧
      ∃ applied failing rest mid, journal m.states = applied ++ failing :: rest ∧
        replayChanges blockedKeeper ⟨fun _ => 0, 0⟩ applied = .ok (mid, none) ∧
        replayChange blockedKeeper mid failing = .ok (minted, some "blocked") :=
  ⟨blockedKeeper_commit_credit, commit_error_after_applied _ _ blockedKeeper_commit_credit⟩

theorem commit_error_keeps_mint :
    ∃ ledger', ((newManager.setBalance (fun _ => 0) (bytesToAddress [2]) 5).commit blockedKeeper
        (⟨fun _ => 0, 0⟩ : Ledger)).1 = .ok (ledger', some "blocked") ∧
      ledger' ≠ ⟨fun _ => 0, 0⟩ :=
  ⟨_, blockedKeeper_commit_credit, fun same => by
    simpa [Ledger.mint] using congrArg Ledger.supply same⟩

end Failure

end Molaris.Bank
