import Molaris.Bank.Manager

/-!
# The overlay refines a stack of balance views

The plain design of a balance overlay with snapshots keeps one full balance view per frame: a
read looks at the top view, a write changes it, a snapshot pushes a copy of it and returns its
index, and a revert cuts the stack back to the given number of views. An empty stack stands for
the bank's balances. This is what the overlay is for; it is stated here, not translated from the
sources.

`bank.Manager` keeps instead, per frame, only the balances written (`dirtyBalances`), next to the
changes that produced them. Mapping each frame to the balances it answers (`Manager.views`)
commutes with every call (`views_call`), so along any run the overlay's frames are the plain
design's views, and `GetBalance` and `Snapshot` answer as the plain design does. The journal
`Commit` replays plays no part in this.
-/

namespace Molaris.Bank

namespace Plain

/-- The top view and the views under it; an empty stack reads the bank's balances. -/
def top (bank : Address → Nat) : List (Address → Int) → (Address → Int) × List (Address → Int)
  | [] => (fun addr => bank addr, [])
  | view :: rest => (view, rest)

/-- A read of the plain design: the top view. -/
def read (bank : Address → Nat) (views : List (Address → Int)) (addr : Address) : Int :=
  (top bank views).1 addr

/-- The views after one call. -/
def call (bank : Address → Nat) (views : List (Address → Int)) : Call → List (Address → Int)
  | .getBalance _ => (top bank views).1 :: (top bank views).2
  | .setBalance addr newBalance =>
      Function.update (top bank views).1 addr newBalance :: (top bank views).2
  | .snapshot => (top bank views).1 :: (top bank views).1 :: (top bank views).2
  | .revertToSnapshot id => popToSize views id

/-- The index of the view a snapshot pushes. -/
def snapshotId (bank : Address → Nat) (views : List (Address → Int)) : Nat :=
  (top bank views).2.length + 1

/-- The views after the calls `calls`, in order. -/
def run (bank : Address → Nat) (views : List (Address → Int)) (calls : List Call) :
    List (Address → Int) :=
  calls.foldl (call bank) views

end Plain

/-- The abstraction of the overlay: each frame, top first, as the balances it answers. -/
def Manager.views (bank : Address → Nat) (m : Manager) : List (Address → Int) :=
  m.states.map (State.cached bank)

section Refinement

variable {bank : Address → Nat}

@[simp] theorem State.cached_mk (balanceChanges : List BalanceChange) (s : State) :
    State.cached bank ⟨balanceChanges, s.dirtyBalances⟩ = s.cached bank := rfl

theorem State.cached_setBalance (s : State) (addr : Address) (newBalance : Int) :
    (if newBalance - s.cached bank addr = 0 then s
      else s.record addr (newBalance - s.cached bank addr) newBalance).cached bank =
      Function.update (s.cached bank) addr newBalance := by
  funext other
  split_ifs with unchanged
  · by_cases same : other = addr
    · subst other
      rw [Function.update_same]
      omega
    · rw [Function.update_noteq same]
  · rw [State.record_cached, Function.update_apply]

theorem Manager.views_call_cons (s : State) (rest : List State) :
    ∀ c : Call, ((⟨s :: rest⟩ : Manager).call bank c).views bank =
      Plain.call bank ((⟨s :: rest⟩ : Manager).views bank) c
  | .getBalance addr => by simp [Manager.call, Manager.views, Plain.call, Plain.top]
  | .setBalance addr newBalance => by
      rw [Manager.call, Manager.setBalance_cons]
      simp only [Manager.views, Plain.call, Plain.top, List.map_cons]
      rw [← State.cached_setBalance]
      split_ifs <;> rfl
  | .snapshot => by simp [Manager.call, Manager.views, Plain.call, Plain.top, State.cached]
  | .revertToSnapshot id => by
      simp [Manager.call, Manager.views, Plain.call, popToSize, List.map_drop]

/-- Every call commutes with the abstraction: the lazy bottom frame of an empty stack is the
bank's view the plain design reads there. -/
theorem Manager.views_call (m : Manager) (c : Call) :
    (m.call bank c).views bank = Plain.call bank (m.views bank) c := by
  obtain ⟨_ | ⟨s, rest⟩⟩ := m
  · cases c with
    | revertToSnapshot id => simp [Manager.call, Manager.views, Plain.call, popToSize]
    | getBalance addr => exact @Manager.views_call_cons bank State.empty [] (.getBalance addr)
    | setBalance addr newBalance =>
        exact @Manager.views_call_cons bank State.empty [] (.setBalance addr newBalance)
    | snapshot => exact @Manager.views_call_cons bank State.empty [] .snapshot
  · exact Manager.views_call_cons s rest c

theorem Manager.views_run (m : Manager) (calls : List Call) :
    (m.run bank calls).views bank = Plain.run bank (m.views bank) calls := by
  induction calls generalizing m with
  | nil => rfl
  | cons c calls induction =>
      rw [Manager.run, List.foldl_cons, ← Manager.run, induction, Manager.views_call]
      rfl

theorem Manager.getBalance_views (m : Manager) (addr : Address) :
    (m.getBalance bank addr).1 = Plain.read bank (m.views bank) addr := by
  obtain ⟨_ | ⟨s, rest⟩⟩ := m
  · rfl
  · simp [Manager.views, Plain.read, Plain.top]

theorem Manager.snapshot_views (m : Manager) :
    m.snapshot.1 = Plain.snapshotId bank (m.views bank) := by
  obtain ⟨_ | ⟨s, rest⟩⟩ := m
  · rfl
  · simp [Manager.views, Plain.snapshotId, Plain.top]

/-- The overlay refines the plain design. For every overlay and every sequence of calls made
while the bank reports the same balances, mapping each frame to the balances it answers gives
the plain design's views after the same calls, and then every `GetBalance` and `Snapshot`
returns what the plain design returns. -/
theorem overlay_refines_views (bank : Address → Nat) (m : Manager) (calls : List Call) :
    let after := m.run bank calls
    let views := Plain.run bank (m.views bank) calls
    after.views bank = views ∧ (∀ addr, (after.getBalance bank addr).1 = Plain.read bank views addr) ∧
      after.snapshot.1 = Plain.snapshotId bank views := by
  intro after views
  have refined : after.views bank = views := Manager.views_run m calls
  exact ⟨refined, fun addr => refined ▸ after.getBalance_views addr, refined ▸ after.snapshot_views⟩

end Refinement

end Molaris.Bank
