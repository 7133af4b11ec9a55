import Molaris.Common
import Mathlib.Logic.Relation

/-!
# The bank overlay

`bank.Manager` buffers the balance changes of an EVM execution in a stack of frames. A frame
keeps the changes recorded while it was on top (`balanceChanges`, which `Commit` replays) and the
resulting balance of every address written so far (`dirtyBalances`, which `GetBalance` reads
before asking the bank). `Snapshot` pushes a frame that starts from the dirty balances of the top
one, `RevertToSnapshot` cuts the stack back, and the first call on an empty stack pushes the
bottom frame.

Stacks are lists read top first. The bank keeper enters each call as the balances of
`underlyingDenom` it reports at that point.
-/

namespace Molaris.Bank

/-- `balanceChange`: the change of one address's balance made by one `SetBalance`. -/
structure BalanceChange where
  addr : Address
  delta : Int
deriving DecidableEq, Repr

/-- `state`: one frame of the overlay. -/
structure State where
  balanceChanges : List BalanceChange
  dirtyBalances : Address → Option Int

/-- The frame `getCurState` pushes on an empty stack. -/
def State.empty : State := ⟨[], fun _ => none⟩

/-- The balance a frame answers for `addr` when it is on top: its dirty balance, else the bank's. -/
def State.cached (bank : Address → Nat) (s : State) (addr : Address) : Int :=
  match s.dirtyBalances addr with
  | some balance => balance
  | none => bank addr

/-- The frame after `SetBalance` appended `delta` for `addr` and cached `newBalance`. -/
def State.record (s : State) (addr : Address) (delta newBalance : Int) : State :=
  { balanceChanges := s.balanceChanges ++ [⟨addr, delta⟩]
    dirtyBalances := Function.update s.dirtyBalances addr (some newBalance) }

/-- Modelled from the spec: `ds.Stack.Push` of `lib/ds/stack`, which puts `item` on top and
returns the new height. -/
def push {α : Type} (stack : List α) (item : α) : List α × Nat :=
  (item :: stack, stack.length + 1)

/-- Modelled from the spec: `ds.Stack.PopToSize` of `lib/ds/stack`, which truncates the stack
back to height `size`, discarding every element above it. -/
def popToSize {α : Type} (stack : List α) (size : Nat) : List α :=
  stack.drop (stack.length - size)

/-- `Manager`: its stack of frames. -/
structure Manager where
  states : List State

/-- `NewManager`. -/
def newManager : Manager := ⟨[]⟩

/-- The journal `Commit` replays: the frames' `balanceChanges`, bottom frame first. -/
def journal : List State → List BalanceChange
  | [] => []
  | s :: rest => journal rest ++ s.balanceChanges

/-- The sum of the deltas a list of balance changes records for `addr`. -/
def deltaSum (addr : Address) : List BalanceChange → Int
  | [] => 0
  | change :: changes => (if change.addr = addr then change.delta else 0) + deltaSum addr changes

namespace Manager

/-- `getCurState`: the top frame, after pushing an empty frame onto an empty stack. -/
def getCurState (m : Manager) : State × Manager :=
  match m.states with
  | [] => (State.empty, ⟨(push [] State.empty).1⟩)
  | curState :: _ => (curState, m)

/-- A write through the frame `getCurState` returns. -/
def modifyCurState (m : Manager) (f : State → State) : Manager :=
  match m.states with
  | [] => ⟨[f State.empty]⟩
  | curState :: rest => ⟨f curState :: rest⟩

/-- `GetBalance`. -/
def getBalance (bank : Address → Nat) (m : Manager) (addr : Address) : Int × Manager :=
  let (curState, m) := m.getCurState
  match curState.dirtyBalances addr with
  | some balance => (balance, m)
  | none => (bank addr, m)

/-- `SetBalance`: records the change from the current balance, unless it is zero. -/
def setBalance (bank : Address → Nat) (m : Manager) (addr : Address) (newBalance : Int) :
    Manager :=
  let (oldBalance, m) := m.getBalance bank addr
  let delta := newBalance - oldBalance
  if delta = 0 then m
  else m.modifyCurState fun curState => curState.record addr delta newBalance

/-- `Snapshot`: pushes a frame with a copy of the top frame's dirty balances and no changes, and
returns its index. -/
def snapshot (m : Manager) : Nat × Manager :=
  let (curState, m) := m.getCurState
  let newState : State := { balanceChanges := [], dirtyBalances := curState.dirtyBalances }
  let (states, size) := push m.states newState
  (size - 1, ⟨states⟩)

/-- `RevertToSnapshot`. -/
def revertToSnapshot (m : Manager) (id : Nat) : Manager :=
  ⟨popToSize m.states id⟩

end Manager

/-- A call the EVM makes into the overlay. -/
inductive Call
  | getBalance (addr : Address)
  | setBalance (addr : Address) (newBalance : Int)
  | snapshot
  | revertToSnapshot (id : Nat)

/-- The calls whose `SetBalance` argument satisfies `p`. -/
def Call.Sets (p : Int → Prop) : Call → Prop
  | .setBalance _ newBalance => p newBalance
  | _ => True

theorem Call.Sets.mono {p q : Int → Prop} (weaker : ∀ value, p value → q value) :
    ∀ {c : Call}, c.Sets p → c.Sets q
  | .getBalance _, _ | .snapshot, _ | .revertToSnapshot _, _ => trivial
  | .setBalance _ newBalance, holds => weaker newBalance holds

namespace Manager

/-- The overlay after one call, made while the bank reports `bank`. -/
def call (bank : Address → Nat) (m : Manager) : Call → Manager
  | .getBalance addr => (m.getBalance bank addr).2
  | .setBalance addr newBalance => m.setBalance bank addr newBalance
  | .snapshot => m.snapshot.2
  | .revertToSnapshot id => m.revertToSnapshot id

/-- `m` reaches `m'` by calls, each made against bank balances that `allowed` admits with it. -/
def Reaches (allowed : (Address → Nat) → Call → Prop) : Manager → Manager → Prop :=
  Relation.ReflTransGen fun m m' => ∃ bank c, allowed bank c ∧ m' = m.call bank c

/-- The overlay after the calls `calls`, made in order while the bank reports `bank`. -/
def run (bank : Address → Nat) (m : Manager) (calls : List Call) : Manager :=
  calls.foldl (call bank) m

end Manager

section Lemmas

variable {bank : Address → Nat} {s : State} {rest : List State} {addr : Address}

@[simp] theorem State.empty_cached : State.empty.cached bank addr = bank addr := rfl

@[simp] theorem State.empty_balanceChanges : State.empty.balanceChanges = [] := rfl

@[simp] theorem State.empty_dirtyBalances : State.empty.dirtyBalances addr = none := rfl

@[simp] theorem State.record_balanceChanges (delta newBalance : Int) :
    (s.record addr delta newBalance).balanceChanges = s.balanceChanges ++ [⟨addr, delta⟩] := rfl

theorem State.record_cached (other : Address) (delta newBalance : Int) :
    (s.record addr delta newBalance).cached bank other =
      if other = addr then newBalance else s.cached bank other := by
  by_cases same : other = addr
  · subst other
    simp [State.record, State.cached]
  · simp [State.record, State.cached, Function.update_noteq same, same]

@[simp] theorem journal_nil : journal [] = [] := rfl

@[simp] theorem journal_cons : journal (s :: rest) = journal rest ++ s.balanceChanges := rfl

@[simp] theorem deltaSum_nil : deltaSum addr [] = 0 := rfl

@[simp] theorem deltaSum_cons (change : BalanceChange) (changes : List BalanceChange) :
    deltaSum addr (change :: changes) =
      (if change.addr = addr then change.delta else 0) + deltaSum addr changes := rfl

theorem journal_record (delta newBalance : Int) :
    journal (s.record addr delta newBalance :: rest) = journal (s :: rest) ++ [⟨addr, delta⟩] := by
  simp

@[simp] theorem deltaSum_append (left right : List BalanceChange) :
    deltaSum addr (left ++ right) = deltaSum addr left + deltaSum addr right := by
  induction left with
  | nil => simp
  | cons change left induction => simp [induction, Int.add_assoc]

theorem deltaSum_eq_zero {changes : List BalanceChange}
    (untouched : ∀ change ∈ changes, change.addr ≠ addr) : deltaSum addr changes = 0 := by
  induction changes with
  | nil => rfl
  | cons change changes induction =>
      simp [untouched change (by simp),
        induction fun other member => untouched other (by simp [member])]

theorem deltaSum_eq_zero_of_not_mem {changes : List BalanceChange}
    (untouched : addr ∉ changes.map BalanceChange.addr) : deltaSum addr changes = 0 :=
  deltaSum_eq_zero fun change member same => untouched (List.mem_map.mpr ⟨change, member, same⟩)

theorem journal_drop_prefixOf (states : List State) (n : Nat) :
    journal (states.drop n) <+: journal states := by
  induction states generalizing n with
  | nil => simp
  | cons s rest induction =>
      cases n with
      | zero => exact List.prefix_refl _
      | succ n => exact (induction n).trans (List.prefix_append _ _)

namespace Manager

@[simp] theorem getBalance_nil :
    (⟨[]⟩ : Manager).getBalance bank addr = ((bank addr : Int), ⟨[State.empty]⟩) := rfl

@[simp] theorem getBalance_cons :
    (⟨s :: rest⟩ : Manager).getBalance bank addr = (s.cached bank addr, ⟨s :: rest⟩) := by
  simp only [getBalance, getCurState, State.cached]
  split <;> simp_all

theorem setBalance_cons (newBalance : Int) :
    (⟨s :: rest⟩ : Manager).setBalance bank addr newBalance =
      if newBalance - s.cached bank addr = 0 then ⟨s :: rest⟩
      else ⟨s.record addr (newBalance - s.cached bank addr) newBalance :: rest⟩ := by
  simp only [setBalance, getBalance_cons]
  split <;> rfl

@[simp] theorem setBalance_nil (newBalance : Int) :
    (⟨[]⟩ : Manager).setBalance bank addr newBalance =
      (⟨[State.empty]⟩ : Manager).setBalance bank addr newBalance := rfl

@[simp] theorem snapshot_cons :
    (⟨s :: rest⟩ : Manager).snapshot =
      (rest.length + 1, ⟨⟨[], s.dirtyBalances⟩ :: s :: rest⟩) := rfl

@[simp] theorem snapshot_nil :
    (⟨[]⟩ : Manager).snapshot = (⟨[State.empty]⟩ : Manager).snapshot := rfl

@[simp] theorem revertToSnapshot_states (m : Manager) (id : Nat) :
    (m.revertToSnapshot id).states = popToSize m.states id := rfl

theorem run_reaches {allowed : (Address → Nat) → Call → Prop} (m : Manager)
    {calls : List Call} (admitted : ∀ c ∈ calls, allowed bank c) :
    Reaches allowed m (m.run bank calls) := by
  induction calls generalizing m with
  | nil => exact Relation.ReflTransGen.refl
  | cons c calls induction =>
      exact Relation.ReflTransGen.head ⟨bank, c, admitted c (List.mem_cons_self _ _), rfl⟩
        (induction (m.call bank c) fun c' member => admitted c' (List.mem_cons_of_mem _ member))

theorem run_append_singleton (m : Manager) (calls : List Call) (c : Call) :
    m.run bank (calls ++ [c]) = (m.run bank calls).call bank c := by
  simp [run, List.foldl_append]

theorem newManager_setBalance_journal (addr : Address) {newBalance : Int}
    (changed : newBalance ≠ bank addr) :
    journal (newManager.setBalance bank addr newBalance).states =
      [⟨addr, newBalance - bank addr⟩] := by
  have nonzero : newBalance - bank addr ≠ 0 := by omega
  simp [newManager, setBalance_cons, nonzero]

end Manager

end Lemmas

end Molaris.Bank
