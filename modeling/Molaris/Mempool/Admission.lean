import Molaris.Mempool.EthTxPool

/-!
# What the pool admits

`checkTxSigner` stands before everything `Insert` files, so every transaction the underlying pool
holds, and every eth transaction the cache holds, comes from a call whose transaction passed it:
no reachable pool holds a transaction signed by the reserved account. A refused `Insert` leaves
the index and the cache as they were. Only the nonce-too-low path changes the underlying pool,
which it leaves with nothing at the transaction's key.
-/

namespace Molaris.Mempool

/-- `tx` has a signer that `common.BytesToAddress` maps to `core.ReservedAddress`. -/
def HasReservedSigner (tx : Tx) : Prop :=
  ∃ signers, tx.signers = .ok signers ∧
    ∃ signer ∈ signers, bytesToAddress signer = reservedAddress

theorem checkTxSigner_of_reserved {tx : Tx} (reserved : HasReservedSigner tx) :
    checkTxSigner tx = some "reserved account not allowed to send tx via mempool" := by
  obtain ⟨signers, signed, signer, member, maps⟩ := reserved
  have : (signers.any fun signer => bytesToAddress signer = reservedAddress) = true :=
    List.any_eq_true.mpr ⟨signer, member, by simpa using maps⟩
  simp [checkTxSigner, signed, this]

theorem not_hasReservedSigner {tx : Tx} (signed : checkTxSigner tx = none) :
    ¬ HasReservedSigner tx :=
  fun reserved => by simp [checkTxSigner_of_reserved reserved] at signed

/-- Everything the pool holds comes from a transaction of `allowed` that passed
`checkTxSigner`: each entry of the underlying pool is one, at its own key, and each cache entry
is the eth transaction of one, under its own hash. -/
structure Admitted (allowed : Tx → Prop) (etp : EthTxPool) : Prop where
  pool : ∀ key tx, etp.priorityNonceMempool.txs key = some tx →
    allowed tx ∧ checkTxSigner tx = none ∧ tx.key = key
  cache : ∀ hash ethTx, etp.ethTxCache hash = some ethTx →
    ethTx.hash = hash ∧ ∃ tx, allowed tx ∧ checkTxSigner tx = none ∧ tx.ethTx = some ethTx

namespace Admitted

variable {allowed : Tx → Prop} {etp etp' : EthTxPool} {tx : Tx} {ethTx : EthTx}

theorem empty : Admitted allowed .empty where
  pool _ _ held := by cases held
  cache _ _ cached := by cases cached

theorem setTx_some (admitted : Admitted allowed etp) (allowedTx : allowed tx)
    (signed : checkTxSigner tx = none) : Admitted allowed (etp.setTx tx.key (some tx)) where
  pool key tx' held := by
    rcases EthTxPool.setTx_txs_eq_some held with ⟨rfl, ⟨⟩⟩ | ⟨-, held⟩
    · exact ⟨allowedTx, signed, rfl⟩
    · exact admitted.pool key tx' held
  cache := admitted.cache

theorem setTx_none (admitted : Admitted allowed etp) (key : Address × Nat) :
    Admitted allowed (etp.setTx key none) where
  pool key' tx' held := by
    rcases EthTxPool.setTx_txs_eq_some held with ⟨-, ⟨⟩⟩ | ⟨-, held⟩
    exact admitted.pool key' tx' held
  cache := admitted.cache

theorem cacheEthTx (admitted : Admitted allowed etp) (allowedTx : allowed tx)
    (signed : checkTxSigner tx = none) (eth : tx.ethTx = some ethTx) :
    Admitted allowed (etp.cacheEthTx ethTx) where
  pool := admitted.pool
  cache hash ethTx' cached := by
    rw [EthTxPool.cacheEthTx_ethTxCache] at cached
    split_ifs at cached with fresh
    · cases cached
      exact ⟨fresh.symm, tx, allowedTx, signed, eth⟩
    · exact admitted.cache hash ethTx' cached

theorem uncacheEthTx (admitted : Admitted allowed etp) (ethTx : EthTx) :
    Admitted allowed (etp.uncacheEthTx ethTx) where
  pool := admitted.pool
  cache hash ethTx' cached := by
    rw [EthTxPool.uncacheEthTx_ethTxCache] at cached
    split_ifs at cached
    exact admitted.cache hash ethTx' cached

theorem insert (admitted : Admitted allowed etp) (allowedTx : allowed tx) (nr : Address → Nat)
    (rejection : Option String) : Admitted allowed (etp.insert nr rejection tx).1 := by
  rcases EthTxPool.insert_cases etp nr rejection tx with
    same | ⟨signed, ⟨-, filed⟩ | ⟨ethTx, eth, taken | filed⟩⟩
  · rwa [same]
  · rw [filed]
    exact admitted.setTx_some allowedTx signed
  · rw [taken]
    exact admitted.setTx_none _
  · rw [filed]
    exact (admitted.setTx_some allowedTx signed).cacheEthTx allowedTx signed eth

theorem remove (admitted : Admitted allowed etp) (tx : Tx) :
    Admitted allowed (etp.remove tx).1 := by
  rcases EthTxPool.remove_cases etp tx with same | ⟨-, emptied⟩ | ⟨ethTx, -, emptied⟩
  · rwa [same]
  · rw [emptied]
    exact admitted.setTx_none _
  · rw [emptied]
    exact (admitted.setTx_none _).uncacheEthTx ethTx

theorem call (admitted : Admitted allowed etp) {c : Call} (allowedTx : allowed c.tx) :
    Admitted allowed (etp.call c).1 := by
  cases c with
  | insert nr rejection tx => exact admitted.insert allowedTx nr rejection
  | remove tx => exact admitted.remove tx

theorem reaches (admitted : Admitted allowed etp) (reach : EthTxPool.Reaches allowed etp etp') :
    Admitted allowed etp' := by
  induction reach with
  | refl => exact admitted
  | tail _ step induction =>
      obtain ⟨c, allowedTx, rfl⟩ := step
      exact induction.call allowedTx

end Admitted

section Refusals

/-- No reachable pool holds a transaction signed by the reserved account, in the underlying pool
or, as the eth transaction of one, in the cache; and every `Insert` of such a transaction returns
the reserved-account error and changes nothing, whatever the pool, the nonces and the underlying
pool's verdict. -/
theorem reserved_signer_never_admitted {allowed : Tx → Prop} {etp : EthTxPool}
    (reach : EthTxPool.Reaches allowed .empty etp) :
    (∀ key tx, etp.priorityNonceMempool.txs key = some tx → ¬ HasReservedSigner tx) ∧
      (∀ hash ethTx, etp.ethTxCache hash = some ethTx →
        ∃ tx, allowed tx ∧ ¬ HasReservedSigner tx ∧ tx.ethTx = some ethTx) ∧
      ∀ (pool : EthTxPool) nr rejection tx, HasReservedSigner tx →
        pool.insert nr rejection tx =
          (pool, some "reserved account not allowed to send tx via mempool") := by
  have admitted := Admitted.empty.reaches reach
  refine ⟨fun key tx held => not_hasReservedSigner (admitted.pool key tx held).2.1,
    fun hash ethTx cached => ?_, fun _ _ _ _ reserved =>
      EthTxPool.insert_of_checkTxSigner (checkTxSigner_of_reserved reserved)⟩
  obtain ⟨-, tx, allowedTx, signed, eth⟩ := admitted.cache hash ethTx cached
  exact ⟨tx, allowedTx, not_hasReservedSigner signed, eth⟩

theorem reserved_signer_never_admitted_filed :
    let etp := (EthTxPool.empty.insert (fun _ => 0) none
      (Tx.ofEthTx (.ok [[2]]) ⟨bytesToAddress [2], 0, ⟨List.replicate 32 1, rfl⟩⟩)).1
    EthTxPool.Reaches (fun _ => True) .empty etp ∧
      (∀ key tx, etp.priorityNonceMempool.txs key = some tx → ¬ HasReservedSigner tx) ∧
      (∀ hash ethTx, etp.ethTxCache hash = some ethTx →
        ∃ tx, True ∧ ¬ HasReservedSigner tx ∧ tx.ethTx = some ethTx) ∧
      ∀ (pool : EthTxPool) nr rejection tx, HasReservedSigner tx →
        pool.insert nr rejection tx =
          (pool, some "reserved account not allowed to send tx via mempool") := by
  intro etp
  have reach : EthTxPool.Reaches (fun _ => True) .empty etp :=
    Relation.ReflTransGen.single ⟨.insert _ none _, trivial, rfl⟩
  exact ⟨reach, reserved_signer_never_admitted reach⟩

/-- A refused `Insert` leaves the index and the cache as they were. On the signer-check path and
on the underlying-rejection path it returns that path's error and leaves the underlying pool as
it was. Otherwise the refusal is the nonce-too-low path: the error is `Wrap` of the nil result of
the compensating `Remove`, and the underlying pool loses its entry at the transaction's key,
whichever transaction it held there before. -/
theorem insert_error_keeps_index {etp : EthTxPool} {nr : Address → Nat}
    {rejection : Option String} {tx : Tx} {err : String}
    (failed : (etp.insert nr rejection tx).2 = some err) :
    let etp' := (etp.insert nr rejection tx).1
    etp'.nonceToHash = etp.nonceToHash ∧ etp'.ethTxCache = etp.ethTxCache ∧
      (∀ refusal, checkTxSigner tx = some refusal →
        err = refusal ∧ etp'.priorityNonceMempool = etp.priorityNonceMempool) ∧
      (checkTxSigner tx = none → ∀ rejected, rejection = some rejected →
        err = rejected ∧ etp'.priorityNonceMempool = etp.priorityNonceMempool) ∧
      (checkTxSigner tx = none → rejection = none →
        (∃ ethTx, tx.ethTx = some ethTx ∧ ethTx.nonce < nr ethTx.sender) ∧
        err = wrap none "nonce too low" ∧
        etp'.priorityNonceMempool.txs = Function.update etp.priorityNonceMempool.txs tx.key none) := by
  rcases signed : checkTxSigner tx with _ | refusal
  · rcases rejection with _ | rejected
    · rcases eth : tx.ethTx with _ | ethTx
      · simp [EthTxPool.insert_of_not_ethTx signed eth] at failed
      · rcases Nat.lt_or_ge ethTx.nonce (nr ethTx.sender) with stale | fresh
        · rw [EthTxPool.insert_of_nonce_lt signed eth stale] at failed ⊢
          cases failed
          exact ⟨rfl, rfl, nofun, fun _ _ => nofun, fun _ _ => ⟨⟨ethTx, rfl, stale⟩, rfl, rfl⟩⟩
        · simp [EthTxPool.insert_of_nonce_le signed eth fresh] at failed
    · rw [EthTxPool.insert_of_rejection signed] at failed ⊢
      cases failed
      exact ⟨rfl, rfl, nofun, fun _ _ same => ⟨Option.some.inj same, rfl⟩, fun _ => nofun⟩
  · rw [EthTxPool.insert_of_checkTxSigner signed] at failed ⊢
    cases failed
    exact ⟨rfl, rfl, fun _ same => ⟨Option.some.inj same, rfl⟩, nofun, nofun⟩

theorem insert_error_keeps_index_stale :
    let sender := bytesToAddress [2]
    let first := Tx.ofEthTx (.ok [[2]]) ⟨sender, 5, ⟨List.replicate 32 1, rfl⟩⟩
    let second := Tx.ofEthTx (.ok [[2]]) ⟨sender, 5, ⟨List.replicate 32 2, rfl⟩⟩
    let etp := (EthTxPool.empty.insert (fun _ => 5) none first).1
    let etp' := (etp.insert (fun _ => 6) none second).1
    (etp.insert (fun _ => 6) none second).2 = some (wrap none "nonce too low") ∧
      etp'.nonceToHash = etp.nonceToHash ∧ etp'.ethTxCache = etp.ethTxCache ∧
      (∀ refusal, checkTxSigner second = some refusal → wrap none "nonce too low" = refusal ∧
        etp'.priorityNonceMempool = etp.priorityNonceMempool) ∧
      (checkTxSigner second = none → ∀ rejected, (none : Option String) = some rejected →
        wrap none "nonce too low" = rejected ∧
          etp'.priorityNonceMempool = etp.priorityNonceMempool) ∧
      (checkTxSigner second = none → (none : Option String) = none →
        (∃ ethTx, second.ethTx = some ethTx ∧ ethTx.nonce < 6) ∧
        wrap none "nonce too low" = wrap none "nonce too low" ∧
        etp'.priorityNonceMempool.txs = Function.update etp.priorityNonceMempool.txs second.key none) := by
  intro sender first second etp etp'
  have failed : (etp.insert (fun _ => 6) none second).2 = some (wrap none "nonce too low") := by
    decide
  exact ⟨failed, insert_error_keeps_index failed⟩

theorem nonce_too_low_evicts :
    let sender := bytesToAddress [2]
    let first := Tx.ofEthTx (.ok [[2]]) ⟨sender, 5, ⟨List.replicate 32 1, rfl⟩⟩
    let second := Tx.ofEthTx (.ok [[2]]) ⟨sender, 5, ⟨List.replicate 32 2, rfl⟩⟩
    let etp := (EthTxPool.empty.insert (fun _ => 5) none first).1
    etp.priorityNonceMempool.txs (sender, 5) = some first ∧
      (etp.insert (fun _ => 6) none second).2 = some (wrap none "nonce too low") ∧
      (etp.insert (fun _ => 6) none second).1.priorityNonceMempool.txs (sender, 5) = none := by
  decide

theorem insert_nonce_too_low_rejected (etp : EthTxPool) {nr : Address → Nat} {tx : Tx}
    {ethTx : EthTx} (signed : checkTxSigner tx = none) (eth : tx.ethTx = some ethTx)
    (stale : ethTx.nonce < nr ethTx.sender) :
    (etp.insert nr none tx).2 = some (wrap none "nonce too low") ∧
      (etp.insert nr none tx).1.priorityNonceMempool.txs tx.key = none ∧
      (etp.insert nr none tx).1.nonceToHash = etp.nonceToHash ∧
      (etp.insert nr none tx).1.ethTxCache = etp.ethTxCache := by
  rw [EthTxPool.insert_of_nonce_lt signed eth stale]
  exact ⟨rfl, by simp, rfl, rfl⟩

/-- The nonce-too-low path takes the transaction out of the underlying pool but, unlike `Remove`,
not out of the index and the cache. `first`, filed while its sender's state nonce was 5, is
inserted again once that nonce is 6: the call returns `Wrap` of the compensating `Remove`'s nil
result, and afterwards the underlying pool no longer holds `first` while the index and the cache
still do, where a `Remove` of `first` drops both. -/
theorem nonce_too_low_stays_cached :
    let ethTx : EthTx := ⟨bytesToAddress [2], 5, ⟨List.replicate 32 1, rfl⟩⟩
    let first := Tx.ofEthTx (.ok [[2]]) ethTx
    let etp := (EthTxPool.empty.insert (fun _ => 5) none first).1
    let after := etp.insert (fun _ => 6) none first
    after.2 = some (wrap none "nonce too low") ∧ after.1.priorityNonceMempool.txs first.key = none ∧
      after.1.ethTxCache ethTx.hash = some ethTx ∧
      after.1.hashAt ethTx.sender ethTx.nonce = some ethTx.hash ∧
      (etp.remove first).1.ethTxCache ethTx.hash = none ∧
      (etp.remove first).1.hashAt ethTx.sender ethTx.nonce = none := by
  intro ethTx first etp after
  have signed : checkTxSigner first = none := by decide
  have filed : etp.priorityNonceMempool.txs first.key = some first := by decide
  obtain ⟨refused, emptied, index, cache⟩ :=
    @insert_nonce_too_low_rejected etp (fun _ => 6) first ethTx signed rfl (by decide)
  have cached : etp.ethTxCache ethTx.hash = some ethTx ∧
      etp.hashAt ethTx.sender ethTx.nonce = some ethTx.hash := by decide
  rw [EthTxPool.remove_of_ethTx filed rfl, EthTxPool.uncacheEthTx_ethTxCache,
    EthTxPool.uncacheEthTx_hashAt]
  exact ⟨refused, emptied, cache ▸ cached.1, by rw [EthTxPool.hashAt, index]; exact cached.2,
    if_pos rfl, if_pos ⟨rfl, rfl⟩⟩

end Refusals

end Molaris.Mempool
