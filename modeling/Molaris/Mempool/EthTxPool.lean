import Molaris.Common
import Mathlib.Logic.Relation

/-!
# The eth transaction pool

`EthTxPool` wraps the SDK's `PriorityNonceMempool` for eth transactions. `Insert` refuses a
transaction signed by the reserved account, hands it to the underlying pool, and, for an eth
transaction, either takes it back out when its nonce is below the sender's state nonce, or files
its hash under its sender and nonce (`nonceToHash`) and the transaction under its hash
(`ethTxCache`). `Remove` takes a transaction out of the underlying pool and drops both records.

Go maps are partial functions here. `nonceToHash` maps a sender to its inner map, which `Insert`
creates on first use; a lookup of a missing key reads the zero value, so a lookup in an inner map
that lacks the nonce reads the zero hash.
-/

namespace Molaris.Mempool

/-- The part of a `coretypes.Transaction` the pool reads: `GetSender`, `Nonce` and `Hash`. -/
structure EthTx where
  sender : Address
  nonce : Nat
  hash : Hash
deriving DecidableEq, Repr

/-- What an `sdk.Tx` answers to the assertion `tx.(authsigning.SigVerifiableTx)` and to
`GetSigners`. -/
inductive Signers
  | notSigVerifiable
  | error (err : String)
  | ok (signers : List (List UInt8))
deriving DecidableEq, Repr

/-- An `sdk.Tx`: its signers, the (sender, sequence) key the underlying pool files it under, and
`evmtypes.GetAsEthTx` of it. An eth transaction is filed under its sender and nonce. -/
structure Tx where
  signers : Signers
  key : Address × Nat
  ethTx : Option EthTx
  key_ethTx : ∀ e, ethTx = some e → key = (e.sender, e.nonce)
deriving DecidableEq

/-- An `sdk.Tx` that carries `ethTx`. -/
def Tx.ofEthTx (signers : Signers) (ethTx : EthTx) : Tx :=
  ⟨signers, (ethTx.sender, ethTx.nonce), some ethTx, fun _ carried => by cases carried; rfl⟩

/-- The SDK's `PriorityNonceMempool` as `EthTxPool` uses it: its transactions by
(sender, sequence). -/
structure PriorityNonceMempool where
  txs : Address × Nat → Option Tx

/-- The pool with its entry at `key` set to `entry`. -/
def PriorityNonceMempool.set (mp : PriorityNonceMempool) (key : Address × Nat)
    (entry : Option Tx) : PriorityNonceMempool :=
  ⟨Function.update mp.txs key entry⟩

/-- `PriorityNonceMempool.Insert`. Its own admission rule (priority, replacement by fee, capacity)
is the verdict `rejection` of the call; an admitted transaction replaces the one at its key. -/
def PriorityNonceMempool.insert (mp : PriorityNonceMempool) (rejection : Option String)
    (tx : Tx) : PriorityNonceMempool × Option String :=
  match rejection with
  | some err => (mp, some err)
  | none => (mp.set tx.key (some tx), none)

/-- `PriorityNonceMempool.Remove`, which removes the transaction filed at the key of `tx`. -/
def PriorityNonceMempool.remove (mp : PriorityNonceMempool) (tx : Tx) :
    PriorityNonceMempool × Option String :=
  match mp.txs tx.key with
  | none => (mp, some "tx not found in mempool")
  | some _ => (mp.set tx.key none, none)

/-- Modelled from the spec: `errorslib.Wrap` of `lib/errors`, which puts `msg` before `err`. The
spec has the nonce-too-low path signal its rejection, so the result is an error also when `err`
is nil. -/
def wrap (err : Option String) (msg : String) : String :=
  match err with
  | some err => msg ++ ": " ++ err
  | none => msg

/-- `checkTxSigner`. -/
def checkTxSigner (tx : Tx) : Option String :=
  match tx.signers with
  | .notSigVerifiable => some "invalid transaction type"
  | .error err => some (wrap (some err) "failed to get signers")
  | .ok signers =>
      if signers.any fun signer => bytesToAddress signer = reservedAddress then
        some "reserved account not allowed to send tx via mempool"
      else none

/-- `EthTxPool`. The nonce retriever `nr` is read at each `Insert`, so it enters each call. -/
structure EthTxPool where
  priorityNonceMempool : PriorityNonceMempool
  nonceToHash : Address → Option (Nat → Option Hash)
  ethTxCache : Hash → Option EthTx

namespace EthTxPool

/-- Modelled from the spec: the constructor of `EthTxPool` is not in the source; the pool starts
with no transaction, no nonce and no hash. -/
def empty : EthTxPool := ⟨⟨fun _ => none⟩, fun _ => none, fun _ => none⟩

/-- `nonceToHash[sender][nonce]` when both entries exist. -/
def hashAt (etp : EthTxPool) (sender : Address) (nonce : Nat) : Option Hash :=
  (etp.nonceToHash sender).bind fun senderNonceHash => senderNonceHash nonce

/-- The hash `Insert` deletes from `ethTxCache` before filing a transaction of `sender` at
`nonce`: `senderNonceHash[nonce]`, which is the zero hash when the inner map lacks `nonce`, and
nothing when the sender has no inner map. -/
def staleHash (etp : EthTxPool) (sender : Address) (nonce : Nat) : Option Hash :=
  (etp.nonceToHash sender).map fun senderNonceHash => (senderNonceHash nonce).getD zeroHash

/-- The pool with the underlying pool's entry at `key` set to `entry`. -/
def setTx (etp : EthTxPool) (key : Address × Nat) (entry : Option Tx) : EthTxPool :=
  { etp with priorityNonceMempool := etp.priorityNonceMempool.set key entry }

/-- What `Insert` does for an eth transaction the underlying pool admitted at a fresh enough
nonce: delete the old hash of the sender and nonce from the cache, then file the new one. -/
def cacheEthTx (etp : EthTxPool) (ethTx : EthTx) : EthTxPool :=
  let ethTxCache := match etp.staleHash ethTx.sender ethTx.nonce with
    | some stale => Function.update etp.ethTxCache stale none
    | none => etp.ethTxCache
  let senderNonceHash := (etp.nonceToHash ethTx.sender).getD fun _ => none
  { etp with
    nonceToHash := Function.update etp.nonceToHash ethTx.sender
      (some (Function.update senderNonceHash ethTx.nonce (some ethTx.hash)))
    ethTxCache := Function.update ethTxCache ethTx.hash (some ethTx) }

/-- What `Remove` does for an eth transaction once the underlying pool removed its key: delete
its hash from the cache and its nonce from its sender's inner map, if the sender has one. -/
def uncacheEthTx (etp : EthTxPool) (ethTx : EthTx) : EthTxPool :=
  { etp with
    ethTxCache := Function.update etp.ethTxCache ethTx.hash none
    nonceToHash := match etp.nonceToHash ethTx.sender with
      | some senderNonceHash => Function.update etp.nonceToHash ethTx.sender
          (some (Function.update senderNonceHash ethTx.nonce none))
      | none => etp.nonceToHash }

/-- `EthTxPool.Insert`, with the nonces `nr` reports and the underlying pool's verdict
`rejection` at the time of the call. -/
def insert (etp : EthTxPool) (nr : Address → Nat) (rejection : Option String) (tx : Tx) :
    EthTxPool × Option String :=
  match checkTxSigner tx with
  | some err => (etp, some err)
  | none =>
      let (mp, err) := etp.priorityNonceMempool.insert rejection tx
      let etp := { etp with priorityNonceMempool := mp }
      match err, tx.ethTx with
      | some err, _ => (etp, some err)
      | none, none => (etp, none)
      | none, some ethTx =>
          if ethTx.nonce < nr ethTx.sender then
            let (mp, err) := etp.priorityNonceMempool.remove tx
            ({ etp with priorityNonceMempool := mp }, some (wrap err "nonce too low"))
          else (etp.cacheEthTx ethTx, none)

/-- `EthTxPool.Remove`. -/
def remove (etp : EthTxPool) (tx : Tx) : EthTxPool × Option String :=
  let (mp, err) := etp.priorityNonceMempool.remove tx
  let etp := { etp with priorityNonceMempool := mp }
  match err, tx.ethTx with
  | some err, _ => (etp, some err)
  | none, none => (etp, none)
  | none, some ethTx => (etp.uncacheEthTx ethTx, none)

end EthTxPool

/-- A call on the pool: `Insert` with the nonces `nr` reports and the underlying pool's verdict at
the time, or `Remove`. The mutex makes the calls sequential. -/
inductive Call
  | insert (nr : Address → Nat) (rejection : Option String) (tx : Tx)
  | remove (tx : Tx)

/-- The transaction a call is made with. -/
def Call.tx : Call → Tx
  | .insert _ _ tx => tx
  | .remove tx => tx

/-- The pool after a call, and the call's error. -/
def EthTxPool.call (etp : EthTxPool) : Call → EthTxPool × Option String
  | .insert nr rejection tx => etp.insert nr rejection tx
  | .remove tx => etp.remove tx

/-- The pools reachable by calls made with transactions of `allowed`. -/
def EthTxPool.Reaches (allowed : Tx → Prop) : EthTxPool → EthTxPool → Prop :=
  Relation.ReflTransGen fun etp etp' => ∃ c : Call, allowed c.tx ∧ etp' = (etp.call c).1

section Lemmas

@[simp] theorem PriorityNonceMempool.set_txs (mp : PriorityNonceMempool) (key : Address × Nat)
    (entry : Option Tx) : (mp.set key entry).txs = Function.update mp.txs key entry := rfl

@[simp] theorem PriorityNonceMempool.set_set (mp : PriorityNonceMempool) (key : Address × Nat)
    (entry entry' : Option Tx) : (mp.set key entry).set key entry' = mp.set key entry' := by
  simp [PriorityNonceMempool.set]

namespace EthTxPool

variable {etp : EthTxPool} {nr : Address → Nat} {rejection : Option String} {tx : Tx}
  {ethTx : EthTx}

@[simp] theorem setTx_txs (key : Address × Nat) (entry : Option Tx) :
    (etp.setTx key entry).priorityNonceMempool.txs =
      Function.update etp.priorityNonceMempool.txs key entry := rfl

@[simp] theorem setTx_nonceToHash (key : Address × Nat) (entry : Option Tx) :
    (etp.setTx key entry).nonceToHash = etp.nonceToHash := rfl

@[simp] theorem setTx_ethTxCache (key : Address × Nat) (entry : Option Tx) :
    (etp.setTx key entry).ethTxCache = etp.ethTxCache := rfl

@[simp] theorem setTx_hashAt (key : Address × Nat) (entry : Option Tx) :
    (etp.setTx key entry).hashAt = etp.hashAt := rfl

@[simp] theorem setTx_staleHash (key : Address × Nat) (entry : Option Tx) :
    (etp.setTx key entry).staleHash = etp.staleHash := rfl

theorem setTx_txs_eq_some {key key' : Address × Nat} {entry : Option Tx} {tx' : Tx}
    (held : (etp.setTx key entry).priorityNonceMempool.txs key' = some tx') :
    key' = key ∧ entry = some tx' ∨ key' ≠ key ∧ etp.priorityNonceMempool.txs key' = some tx' := by
  rw [setTx_txs, Function.update_apply] at held
  split_ifs at held with same
  · exact .inl ⟨same, held⟩
  · exact .inr ⟨same, held⟩

@[simp] theorem cacheEthTx_priorityNonceMempool :
    (etp.cacheEthTx ethTx).priorityNonceMempool = etp.priorityNonceMempool := rfl

@[simp] theorem uncacheEthTx_priorityNonceMempool :
    (etp.uncacheEthTx ethTx).priorityNonceMempool = etp.priorityNonceMempool := rfl

theorem cacheEthTx_hashAt (sender : Address) (nonce : Nat) :
    (etp.cacheEthTx ethTx).hashAt sender nonce =
      if sender = ethTx.sender ∧ nonce = ethTx.nonce then some ethTx.hash
      else etp.hashAt sender nonce := by
  by_cases same : sender = ethTx.sender
  · cases inner : etp.nonceToHash ethTx.sender <;> by_cases sameNonce : nonce = ethTx.nonce <;>
      simp [cacheEthTx, hashAt, same, sameNonce, inner]
  · simp [cacheEthTx, hashAt, same]

theorem cacheEthTx_ethTxCache (hash : Hash) :
    (etp.cacheEthTx ethTx).ethTxCache hash =
      if hash = ethTx.hash then some ethTx
      else if etp.staleHash ethTx.sender ethTx.nonce = some hash then none
      else etp.ethTxCache hash := by
  cases stale : etp.staleHash ethTx.sender ethTx.nonce <;>
    simp [cacheEthTx, stale, Function.update_apply, eq_comm]

theorem uncacheEthTx_hashAt (sender : Address) (nonce : Nat) :
    (etp.uncacheEthTx ethTx).hashAt sender nonce =
      if sender = ethTx.sender ∧ nonce = ethTx.nonce then none
      else etp.hashAt sender nonce := by
  by_cases same : sender = ethTx.sender
  · cases inner : etp.nonceToHash ethTx.sender <;> by_cases sameNonce : nonce = ethTx.nonce <;>
      simp [uncacheEthTx, hashAt, same, sameNonce, inner]
  · cases inner : etp.nonceToHash ethTx.sender <;> simp [uncacheEthTx, hashAt, same, inner]

theorem uncacheEthTx_ethTxCache (hash : Hash) :
    (etp.uncacheEthTx ethTx).ethTxCache hash =
      if hash = ethTx.hash then none else etp.ethTxCache hash := by
  simp [uncacheEthTx, Function.update_apply]

theorem staleHash_cases {sender : Address} {nonce : Nat} {hash : Hash}
    (stale : etp.staleHash sender nonce = some hash) :
    etp.hashAt sender nonce = some hash ∨ hash = zeroHash := by
  simp only [staleHash, Option.map_eq_some'] at stale
  obtain ⟨senderNonceHash, inner, rfl⟩ := stale
  cases filed : senderNonceHash nonce <;> simp [hashAt, inner, filed]

theorem staleHash_of_hashAt {sender : Address} {nonce : Nat} {hash : Hash}
    (filed : etp.hashAt sender nonce = some hash) : etp.staleHash sender nonce = some hash := by
  simp only [hashAt, Option.bind_eq_some] at filed
  obtain ⟨senderNonceHash, inner, filed⟩ := filed
  simp [staleHash, inner, filed]

theorem insert_of_checkTxSigner {err : String} (refused : checkTxSigner tx = some err) :
    etp.insert nr rejection tx = (etp, some err) := by
  simp [insert, refused]

theorem insert_of_rejection {err : String} (signed : checkTxSigner tx = none) :
    etp.insert nr (some err) tx = (etp, some err) := by
  simp [insert, signed, PriorityNonceMempool.insert]

theorem insert_of_not_ethTx (signed : checkTxSigner tx = none) (notEth : tx.ethTx = none) :
    etp.insert nr none tx = (etp.setTx tx.key (some tx), none) := by
  simp [insert, signed, notEth, PriorityNonceMempool.insert, setTx]

theorem insert_of_nonce_lt (signed : checkTxSigner tx = none) (eth : tx.ethTx = some ethTx)
    (stale : ethTx.nonce < nr ethTx.sender) :
    etp.insert nr none tx = (etp.setTx tx.key none, some "nonce too low") := by
  simp [insert, signed, eth, stale, PriorityNonceMempool.insert, PriorityNonceMempool.remove,
    setTx, wrap]

theorem insert_of_nonce_le (signed : checkTxSigner tx = none) (eth : tx.ethTx = some ethTx)
    (fresh : nr ethTx.sender ≤ ethTx.nonce) :
    etp.insert nr none tx = ((etp.setTx tx.key (some tx)).cacheEthTx ethTx, none) := by
  simp [insert, signed, eth, Nat.not_lt.mpr fresh, PriorityNonceMempool.insert, setTx]

/-- What an `Insert` can do: nothing, when the signer check or the underlying pool refuses the
transaction; otherwise file a non-eth transaction, or, for an eth one, take it back out of its key
or file and cache it. -/
theorem insert_cases (etp : EthTxPool) (nr : Address → Nat) (rejection : Option String)
    (tx : Tx) :
    (etp.insert nr rejection tx).1 = etp ∨
      checkTxSigner tx = none ∧
        (tx.ethTx = none ∧ (etp.insert nr rejection tx).1 = etp.setTx tx.key (some tx) ∨
          ∃ ethTx, tx.ethTx = some ethTx ∧
            ((etp.insert nr rejection tx).1 = etp.setTx tx.key none ∨
              (etp.insert nr rejection tx).1 = (etp.setTx tx.key (some tx)).cacheEthTx ethTx)) := by
  rcases signed : checkTxSigner tx with _ | err
  · rcases rejection with _ | err
    · rcases eth : tx.ethTx with _ | ethTx
      · exact .inr ⟨rfl, .inl ⟨rfl, by rw [insert_of_not_ethTx signed eth]⟩⟩
      · refine .inr ⟨rfl, .inr ⟨ethTx, rfl, ?_⟩⟩
        rcases Nat.lt_or_ge ethTx.nonce (nr ethTx.sender) with stale | fresh
        · exact .inl (by rw [insert_of_nonce_lt signed eth stale])
        · exact .inr (by rw [insert_of_nonce_le signed eth fresh])
    · exact .inl (by rw [insert_of_rejection signed])
  · exact .inl (by rw [insert_of_checkTxSigner signed])

theorem remove_of_missing (missing : etp.priorityNonceMempool.txs tx.key = none) :
    etp.remove tx = (etp, some "tx not found in mempool") := by
  simp [remove, PriorityNonceMempool.remove, missing]

theorem remove_of_not_ethTx {old : Tx} (held : etp.priorityNonceMempool.txs tx.key = some old)
    (notEth : tx.ethTx = none) : etp.remove tx = (etp.setTx tx.key none, none) := by
  simp [remove, PriorityNonceMempool.remove, held, notEth, setTx]

theorem remove_of_ethTx {old : Tx} (held : etp.priorityNonceMempool.txs tx.key = some old)
    (eth : tx.ethTx = some ethTx) :
    etp.remove tx = ((etp.setTx tx.key none).uncacheEthTx ethTx, none) := by
  simp [remove, PriorityNonceMempool.remove, held, eth, setTx]

theorem remove_cases (etp : EthTxPool) (tx : Tx) :
    (etp.remove tx).1 = etp ∨
      tx.ethTx = none ∧ (etp.remove tx).1 = etp.setTx tx.key none ∨
      ∃ ethTx, tx.ethTx = some ethTx ∧
        (etp.remove tx).1 = (etp.setTx tx.key none).uncacheEthTx ethTx := by
  rcases held : etp.priorityNonceMempool.txs tx.key with _ | old
  · exact .inl (by rw [remove_of_missing held])
  · rcases eth : tx.ethTx with _ | ethTx
    · exact .inr (.inl ⟨rfl, by rw [remove_of_not_ethTx held eth]⟩)
    · exact .inr (.inr ⟨ethTx, rfl, by rw [remove_of_ethTx held eth]⟩)

end EthTxPool

end Lemmas

end Molaris.Mempool
