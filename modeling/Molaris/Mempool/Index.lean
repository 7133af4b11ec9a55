import Molaris.Mempool.Admission

/-!
# The nonce index and the cache

`Insert` files an admitted eth transaction's hash under its sender and nonce and the transaction
under its hash, after deleting from the cache the hash filed there before; `Remove` deletes both.
Given that distinct eth transactions have distinct, nonzero hashes, every reachable pool keeps
two facts: each eth transaction the underlying pool holds is indexed and cached, and each index
entry names a cached transaction of its sender and nonce. The converse fails. A non-eth
transaction filed under the key of an eth one and a nonce-too-low `Insert` each replace or empty
a key and leave its index and cache entries behind. A `Remove` of a superseded transaction, which
the underlying pool finds by key, empties the key and its index entry but leaves the live
transaction cached. Only an eth transaction replacing another evicts the old hash.
-/

namespace Molaris.Mempool

/-- Distinct eth transactions of `allowed` have distinct hashes, none of them the zero hash, as
Keccak hashes of distinct transactions do. -/
structure DistinctHashes (allowed : Tx → Prop) : Prop where
  injective : ∀ tx tx' ethTx ethTx', allowed tx → allowed tx' → tx.ethTx = some ethTx →
    tx'.ethTx = some ethTx' → ethTx.hash = ethTx'.hash → ethTx = ethTx'
  nonzero : ∀ tx ethTx, allowed tx → tx.ethTx = some ethTx → ethTx.hash ≠ zeroHash

/-- Each index entry names a cached eth transaction of its sender and nonce, and each eth
transaction the underlying pool holds is indexed and cached. -/
structure Indexed (etp : EthTxPool) : Prop where
  index : ∀ sender nonce hash, etp.hashAt sender nonce = some hash →
    ∃ ethTx, etp.ethTxCache hash = some ethTx ∧ ethTx.sender = sender ∧ ethTx.nonce = nonce
  pool : ∀ key tx ethTx, etp.priorityNonceMempool.txs key = some tx → tx.ethTx = some ethTx →
    etp.hashAt ethTx.sender ethTx.nonce = some ethTx.hash ∧ etp.ethTxCache ethTx.hash = some ethTx

namespace Indexed

variable {allowed : Tx → Prop} {etp etp' : EthTxPool} {tx : Tx} {ethTx ethTx' : EthTx}
  {hash : Hash}

theorem empty : Indexed .empty where
  index _ _ _ filed := by cases filed
  pool _ _ _ held := by cases held

theorem hash_ne (hashes : DistinctHashes allowed) (admitted : Admitted allowed etp)
    (allowedTx : allowed tx) (eth : tx.ethTx = some ethTx)
    (cached : etp.ethTxCache hash = some ethTx')
    (other : ¬ (ethTx'.sender = ethTx.sender ∧ ethTx'.nonce = ethTx.nonce)) :
    hash ≠ ethTx.hash := by
  obtain ⟨filed, tx', allowedTx', -, eth'⟩ := admitted.cache hash ethTx' cached
  intro same
  obtain rfl := hashes.injective tx' tx ethTx' ethTx allowedTx' allowedTx eth' eth
    (filed.trans same)
  exact other ⟨rfl, rfl⟩

theorem other_of_key_ne (admitted : Admitted allowed etp) {key : Address × Nat} {tx' : Tx}
    (held : etp.priorityNonceMempool.txs key = some tx') (eth' : tx'.ethTx = some ethTx')
    (eth : tx.ethTx = some ethTx) (distinct : key ≠ tx.key) :
    ¬ (ethTx'.sender = ethTx.sender ∧ ethTx'.nonce = ethTx.nonce) := fun ⟨sender, nonce⟩ =>
  distinct (by rw [← (admitted.pool key tx' held).2.2, tx'.key_ethTx ethTx' eth',
    tx.key_ethTx ethTx eth, sender, nonce])

theorem cacheEthTx_keeps (hashes : DistinctHashes allowed) (admitted : Admitted allowed etp)
    (indexed : Indexed etp) (allowedTx : allowed tx) (eth : tx.ethTx = some ethTx)
    (cached : etp.ethTxCache hash = some ethTx')
    (other : ¬ (ethTx'.sender = ethTx.sender ∧ ethTx'.nonce = ethTx.nonce)) :
    (etp.cacheEthTx ethTx).ethTxCache hash = some ethTx' := by
  have notStale : etp.staleHash ethTx.sender ethTx.nonce ≠ some hash := fun stale => by
    rcases EthTxPool.staleHash_cases stale with filed | zero
    · obtain ⟨ethTx'', cached'', sender, nonce⟩ := indexed.index _ _ _ filed
      rw [cached] at cached''
      cases cached''
      exact other ⟨sender, nonce⟩
    · obtain ⟨filed, tx', allowedTx', -, eth'⟩ := admitted.cache hash ethTx' cached
      exact hashes.nonzero tx' ethTx' allowedTx' eth' (filed.trans zero)
  rw [EthTxPool.cacheEthTx_ethTxCache, if_neg (hash_ne hashes admitted allowedTx eth cached other),
    if_neg notStale, cached]

theorem setTx_none (indexed : Indexed etp) (key : Address × Nat) :
    Indexed (etp.setTx key none) where
  index := indexed.index
  pool key' tx' ethTx' held := by
    rcases EthTxPool.setTx_txs_eq_some held with ⟨-, ⟨⟩⟩ | ⟨-, held⟩
    exact indexed.pool key' tx' ethTx' held

theorem setTx_not_ethTx (indexed : Indexed etp) (notEth : tx.ethTx = none) :
    Indexed (etp.setTx tx.key (some tx)) where
  index := indexed.index
  pool key tx' ethTx' held eth' := by
    rcases EthTxPool.setTx_txs_eq_some held with ⟨-, ⟨⟩⟩ | ⟨-, held⟩
    · rw [notEth] at eth'
      cases eth'
    · exact indexed.pool key tx' ethTx' held eth'

theorem cacheEthTx (hashes : DistinctHashes allowed) (admitted : Admitted allowed etp)
    (indexed : Indexed etp) (allowedTx : allowed tx) (eth : tx.ethTx = some ethTx) :
    Indexed ((etp.setTx tx.key (some tx)).cacheEthTx ethTx) where
  index sender nonce hash filed := by
    rw [EthTxPool.cacheEthTx_hashAt] at filed
    split_ifs at filed with same
    · cases filed
      obtain ⟨rfl, rfl⟩ := same
      exact ⟨ethTx, by simp [EthTxPool.cacheEthTx_ethTxCache], rfl, rfl⟩
    · obtain ⟨ethTx', cached, rfl, rfl⟩ := indexed.index sender nonce hash filed
      exact ⟨ethTx', (cacheEthTx_keeps hashes admitted indexed allowedTx eth cached same :
        (etp.cacheEthTx ethTx).ethTxCache hash = some ethTx'), rfl, rfl⟩
  pool key tx' ethTx' held eth' := by
    rcases EthTxPool.setTx_txs_eq_some held with ⟨-, ⟨⟩⟩ | ⟨same, held⟩
    · rw [eth] at eth'
      cases eth'
      simp [EthTxPool.cacheEthTx_hashAt, EthTxPool.cacheEthTx_ethTxCache]
    · obtain ⟨filed, cached⟩ := indexed.pool key tx' ethTx' held eth'
      have other := other_of_key_ne admitted held eth' eth same
      rw [EthTxPool.cacheEthTx_hashAt, if_neg other]
      exact ⟨filed, (cacheEthTx_keeps hashes admitted indexed allowedTx eth cached other :
        (etp.cacheEthTx ethTx).ethTxCache ethTx'.hash = some ethTx')⟩

theorem uncacheEthTx (hashes : DistinctHashes allowed) (admitted : Admitted allowed etp)
    (indexed : Indexed etp) (allowedTx : allowed tx) (eth : tx.ethTx = some ethTx) :
    Indexed ((etp.setTx tx.key none).uncacheEthTx ethTx) where
  index sender nonce hash filed := by
    rw [EthTxPool.uncacheEthTx_hashAt] at filed
    split_ifs at filed with same
    obtain ⟨ethTx', cached, rfl, rfl⟩ := indexed.index sender nonce hash filed
    refine ⟨ethTx', ?_, rfl, rfl⟩
    rw [EthTxPool.uncacheEthTx_ethTxCache, if_neg (hash_ne hashes admitted allowedTx eth cached same)]
    exact cached
  pool key tx' ethTx' held eth' := by
    rcases EthTxPool.setTx_txs_eq_some held with ⟨-, ⟨⟩⟩ | ⟨same, held⟩
    obtain ⟨filed, cached⟩ := indexed.pool key tx' ethTx' held eth'
    have other := other_of_key_ne admitted held eth' eth same
    rw [EthTxPool.uncacheEthTx_hashAt, if_neg other, EthTxPool.uncacheEthTx_ethTxCache,
      if_neg (hash_ne hashes admitted allowedTx eth cached other)]
    exact ⟨filed, cached⟩

theorem insert (hashes : DistinctHashes allowed) (admitted : Admitted allowed etp)
    (indexed : Indexed etp) (allowedTx : allowed tx) (nr : Address → Nat)
    (rejection : Option String) : Indexed (etp.insert nr rejection tx).1 := by
  rcases EthTxPool.insert_cases etp nr rejection tx with
    same | ⟨-, ⟨notEth, filed⟩ | ⟨ethTx, eth, taken | filed⟩⟩
  · rwa [same]
  · rw [filed]
    exact indexed.setTx_not_ethTx notEth
  · rw [taken]
    exact indexed.setTx_none _
  · rw [filed]
    exact cacheEthTx hashes admitted indexed allowedTx eth

theorem remove (hashes : DistinctHashes allowed) (admitted : Admitted allowed etp)
    (indexed : Indexed etp) (allowedTx : allowed tx) : Indexed (etp.remove tx).1 := by
  rcases EthTxPool.remove_cases etp tx with same | ⟨-, emptied⟩ | ⟨ethTx, eth, emptied⟩
  · rwa [same]
  · rw [emptied]
    exact indexed.setTx_none _
  · rw [emptied]
    exact uncacheEthTx hashes admitted indexed allowedTx eth

theorem call (hashes : DistinctHashes allowed) (admitted : Admitted allowed etp)
    (indexed : Indexed etp) {c : Call} (allowedTx : allowed c.tx) : Indexed (etp.call c).1 := by
  cases c with
  | insert nr rejection tx => exact indexed.insert hashes admitted allowedTx nr rejection
  | remove tx => exact indexed.remove hashes admitted allowedTx

theorem reaches (hashes : DistinctHashes allowed) (admitted : Admitted allowed etp)
    (indexed : Indexed etp) (reach : EthTxPool.Reaches allowed etp etp') : Indexed etp' := by
  induction reach with
  | refl => exact indexed
  | tail before step induction =>
      obtain ⟨c, allowedTx, rfl⟩ := step
      exact induction.call hashes (admitted.reaches before) allowedTx

end Indexed

/-- In every pool reachable by calls on transactions whose eth transactions have distinct,
nonzero hashes: each eth transaction the underlying pool holds sits at its sender and nonce,
whose index entry is its hash, under which the cache holds it; each index entry names a cached
transaction of its sender and nonce with that hash; and each cache entry is, under its own hash,
the eth transaction of a transaction of the run. -/
theorem pool_indexed_and_cached {allowed : Tx → Prop} (hashes : DistinctHashes allowed)
    {etp : EthTxPool} (reach : EthTxPool.Reaches allowed .empty etp) :
    (∀ key tx ethTx, etp.priorityNonceMempool.txs key = some tx → tx.ethTx = some ethTx →
      key = (ethTx.sender, ethTx.nonce) ∧ etp.hashAt ethTx.sender ethTx.nonce = some ethTx.hash ∧
        etp.ethTxCache ethTx.hash = some ethTx) ∧
      (∀ sender nonce hash, etp.hashAt sender nonce = some hash → ∃ ethTx,
        etp.ethTxCache hash = some ethTx ∧ ethTx.sender = sender ∧ ethTx.nonce = nonce ∧
          ethTx.hash = hash) ∧
      ∀ hash ethTx, etp.ethTxCache hash = some ethTx →
        ethTx.hash = hash ∧ ∃ tx, allowed tx ∧ tx.ethTx = some ethTx := by
  have admitted := Admitted.empty.reaches reach
  have indexed := Indexed.empty.reaches hashes Admitted.empty reach
  refine ⟨fun key tx ethTx held eth => ⟨?_, indexed.pool key tx ethTx held eth⟩,
    fun sender nonce hash filed => ?_, fun hash ethTx cached => ?_⟩
  · rw [← (admitted.pool key tx held).2.2, tx.key_ethTx ethTx eth]
  · obtain ⟨ethTx, cached, rfl, rfl⟩ := indexed.index sender nonce hash filed
    exact ⟨ethTx, cached, rfl, rfl, (admitted.cache hash ethTx cached).1⟩
  · obtain ⟨filed, tx, allowedTx, -, eth⟩ := admitted.cache hash ethTx cached
    exact ⟨filed, tx, allowedTx, eth⟩

theorem pool_indexed_and_cached_replaced :
    let sender := bytesToAddress [2]
    let first := Tx.ofEthTx (.ok [[2]]) ⟨sender, 5, ⟨List.replicate 32 1, rfl⟩⟩
    let second : Tx := ⟨.ok [[2]], (sender, 5), none, nofun⟩
    let allowed := fun tx => tx = first ∨ tx = second
    let etp :=
      ((EthTxPool.empty.insert (fun _ => 0) none first).1.insert (fun _ => 0) none second).1
    DistinctHashes allowed ∧ EthTxPool.Reaches allowed .empty etp ∧
      (∀ key tx ethTx, etp.priorityNonceMempool.txs key = some tx → tx.ethTx = some ethTx →
        key = (ethTx.sender, ethTx.nonce) ∧
          etp.hashAt ethTx.sender ethTx.nonce = some ethTx.hash ∧
          etp.ethTxCache ethTx.hash = some ethTx) ∧
      (∀ sender nonce hash, etp.hashAt sender nonce = some hash → ∃ ethTx,
        etp.ethTxCache hash = some ethTx ∧ ethTx.sender = sender ∧ ethTx.nonce = nonce ∧
          ethTx.hash = hash) ∧
      ∀ hash ethTx, etp.ethTxCache hash = some ethTx →
        ethTx.hash = hash ∧ ∃ tx, allowed tx ∧ tx.ethTx = some ethTx := by
  intro sender first second allowed etp
  have hashes : DistinctHashes allowed :=
    { injective := by
        rintro tx tx' ethTx ethTx' (rfl | rfl) (rfl | rfl) eth eth' - <;> cases eth <;> cases eth'
        rfl
      nonzero := by
        rintro tx ethTx (rfl | rfl) eth <;> cases eth
        decide }
  have reach : EthTxPool.Reaches allowed .empty etp :=
    (Relation.ReflTransGen.single ⟨.insert (fun _ => 0) none first, .inl rfl, rfl⟩).tail
      ⟨.insert (fun _ => 0) none second, .inr rfl, rfl⟩
  exact ⟨hashes, reach, pool_indexed_and_cached hashes reach⟩

theorem non_eth_replacement_keeps_index :
    let sender := bytesToAddress [2]
    let ethTx : EthTx := ⟨sender, 5, ⟨List.replicate 32 1, rfl⟩⟩
    let second : Tx := ⟨.ok [[2]], (sender, 5), none, nofun⟩
    let etp := ((EthTxPool.empty.insert (fun _ => 0) none (Tx.ofEthTx (.ok [[2]]) ethTx)).1.insert
      (fun _ => 0) none second).1
    EthTxPool.Reaches (fun _ => True) .empty etp ∧
      ¬ (etp.hashAt sender 5 = some ethTx.hash ↔ ∃ tx,
        etp.priorityNonceMempool.txs (sender, 5) = some tx ∧
          ∃ ethTx', tx.ethTx = some ethTx' ∧ ethTx'.hash = ethTx.hash) := by
  intro sender ethTx second etp
  have filed : etp.hashAt sender 5 = some ethTx.hash := by decide
  have held : etp.priorityNonceMempool.txs (sender, 5) = some second := by decide
  refine ⟨(Relation.ReflTransGen.single ⟨.insert (fun _ => 0) none _, trivial, rfl⟩).tail
    ⟨.insert (fun _ => 0) none second, trivial, rfl⟩, ?_⟩
  simp [filed, held, second]

section Replacement

variable {allowed : Tx → Prop} {etp : EthTxPool}

/-- An `Insert` that replaces, at a fresh enough nonce, the eth transaction the pool holds under
the same key by another one of the run succeeds in every reachable pool. It files, indexes and
caches the new transaction, and evicts the replaced one from the cache, as its hash was the one
the index held. -/
theorem insert_replacement_evicts (hashes : DistinctHashes allowed)
    (reach : EthTxPool.Reaches allowed .empty etp) {nr : Address → Nat} {old tx : Tx}
    {oldEth ethTx : EthTx} (held : etp.priorityNonceMempool.txs tx.key = some old)
    (oldEthOf : old.ethTx = some oldEth) (allowedTx : allowed tx)
    (signed : checkTxSigner tx = none) (eth : tx.ethTx = some ethTx)
    (fresh : nr ethTx.sender ≤ ethTx.nonce) (replaced : oldEth ≠ ethTx) :
    let etp' := (etp.insert nr none tx).1
    (etp.insert nr none tx).2 = none ∧ etp'.priorityNonceMempool.txs tx.key = some tx ∧
      etp'.hashAt ethTx.sender ethTx.nonce = some ethTx.hash ∧
      etp'.ethTxCache ethTx.hash = some ethTx ∧ etp'.ethTxCache oldEth.hash = none := by
  have admitted := Admitted.empty.reaches reach
  have indexed := Indexed.empty.reaches hashes Admitted.empty reach
  obtain ⟨allowedOld, -, oldKey⟩ := admitted.pool _ old held
  have sameKey : (oldEth.sender, oldEth.nonce) = (ethTx.sender, ethTx.nonce) := by
    rw [← old.key_ethTx oldEth oldEthOf, ← tx.key_ethTx ethTx eth, oldKey]
  obtain ⟨sender, nonce⟩ := Prod.mk.inj sameKey
  have otherHash : oldEth.hash ≠ ethTx.hash := fun same =>
    replaced (hashes.injective old tx oldEth ethTx allowedOld allowedTx oldEthOf eth same)
  have stale : etp.staleHash ethTx.sender ethTx.nonce = some oldEth.hash := by
    rw [← sender, ← nonce]
    exact EthTxPool.staleHash_of_hashAt (indexed.pool _ old oldEth held oldEthOf).1
  rw [EthTxPool.insert_of_nonce_le signed eth fresh]
  refine ⟨rfl, by simp, by simp [EthTxPool.cacheEthTx_hashAt], by
    simp [EthTxPool.cacheEthTx_ethTxCache], ?_⟩
  rw [EthTxPool.cacheEthTx_ethTxCache, if_neg otherHash, EthTxPool.setTx_staleHash, if_pos stale]

theorem distinctHashes_replacing (sender : Address) (nonce : Nat) :
    let first := Tx.ofEthTx (.ok [[2]]) ⟨sender, nonce, ⟨List.replicate 32 1, rfl⟩⟩
    let second := Tx.ofEthTx (.ok [[2]]) ⟨sender, nonce, ⟨List.replicate 32 2, rfl⟩⟩
    DistinctHashes fun tx => tx = first ∨ tx = second where
  injective := by
    rintro tx tx' ethTx ethTx' (rfl | rfl) (rfl | rfl) eth eth' same <;> cases eth <;>
      cases eth' <;> first | rfl | exact absurd same (by dsimp only; decide)
  nonzero := by
    rintro tx ethTx (rfl | rfl) eth <;> cases eth <;> dsimp only <;> decide

theorem insert_replacement_evicts_first :
    let sender := bytesToAddress [2]
    let first := Tx.ofEthTx (.ok [[2]]) ⟨sender, 5, ⟨List.replicate 32 1, rfl⟩⟩
    let ethTx : EthTx := ⟨sender, 5, ⟨List.replicate 32 2, rfl⟩⟩
    let second := Tx.ofEthTx (.ok [[2]]) ethTx
    let etp := (EthTxPool.empty.insert (fun _ => 0) none first).1
    let etp' := (etp.insert (fun _ => 0) none second).1
    (DistinctHashes (fun tx => tx = first ∨ tx = second) ∧
      EthTxPool.Reaches (fun tx => tx = first ∨ tx = second) .empty etp ∧
      etp.priorityNonceMempool.txs second.key = some first ∧ checkTxSigner second = none) ∧
    (etp.insert (fun _ => 0) none second).2 = none ∧
      etp'.priorityNonceMempool.txs second.key = some second ∧
      etp'.hashAt ethTx.sender ethTx.nonce = some ethTx.hash ∧
      etp'.ethTxCache ethTx.hash = some ethTx ∧
      etp'.ethTxCache (⟨List.replicate 32 1, rfl⟩ : Hash) = none := by
  intro sender first ethTx second etp etp'
  have hashes := distinctHashes_replacing sender 5
  have reach : EthTxPool.Reaches (fun tx => tx = first ∨ tx = second) .empty etp :=
    .single ⟨.insert (fun _ => 0) none first, .inl rfl, rfl⟩
  have held : etp.priorityNonceMempool.txs second.key = some first := by decide
  have signed : checkTxSigner second = none := by decide
  exact ⟨⟨hashes, reach, held, signed⟩, insert_replacement_evicts hashes reach held rfl (.inr rfl)
    signed rfl (Nat.zero_le 5) (by decide)⟩

/-- `Remove` deletes by key, not by hash. In every reachable pool, a `Remove` of a superseded
handle (a transaction filed under the key of the eth transaction the pool holds, with another
hash) succeeds: it empties that key and its index entry, but leaves the live transaction cached
under its hash, where no transaction of the pool carries it any more. -/
theorem remove_superseded_orphans_cache (hashes : DistinctHashes allowed)
    (reach : EthTxPool.Reaches allowed .empty etp) {live stale : Tx} {liveEth staleEth : EthTx}
    (held : etp.priorityNonceMempool.txs live.key = some live) (eth : live.ethTx = some liveEth)
    (staleEthOf : stale.ethTx = some staleEth) (sameKey : stale.key = live.key)
    (superseded : staleEth.hash ≠ liveEth.hash) :
    let etp' := (etp.remove stale).1
    (etp.remove stale).2 = none ∧ etp'.priorityNonceMempool.txs live.key = none ∧
      etp'.hashAt liveEth.sender liveEth.nonce = none ∧
      etp'.ethTxCache liveEth.hash = some liveEth ∧
      ∀ key tx, etp'.priorityNonceMempool.txs key = some tx → tx.ethTx ≠ some liveEth := by
  have admitted := Admitted.empty.reaches reach
  have indexed := Indexed.empty.reaches hashes Admitted.empty reach
  have liveKey := live.key_ethTx liveEth eth
  have staleKey := stale.key_ethTx staleEth staleEthOf
  rw [← sameKey] at held
  rw [EthTxPool.remove_of_ethTx held staleEthOf]
  refine ⟨rfl, by simp [sameKey], ?_, ?_, fun key tx filed carries => ?_⟩
  · rw [EthTxPool.uncacheEthTx_hashAt,
      if_pos (Prod.mk.inj (liveKey.symm.trans (sameKey.symm.trans staleKey)))]
  · rw [EthTxPool.uncacheEthTx_ethTxCache, if_neg (Ne.symm superseded), EthTxPool.setTx_ethTxCache]
    exact (indexed.pool _ live liveEth held eth).2
  · obtain ⟨emptied, filed⟩ := (EthTxPool.setTx_txs_eq_some filed).resolve_left
      fun ⟨_, entry⟩ => Option.noConfusion entry
    apply emptied
    rw [sameKey, liveKey, ← tx.key_ethTx liveEth carries, (admitted.pool key tx filed).2.2]

theorem remove_superseded_orphans_second :
    let sender := bytesToAddress [2]
    let first := Tx.ofEthTx (.ok [[2]]) ⟨sender, 5, ⟨List.replicate 32 1, rfl⟩⟩
    let liveEth : EthTx := ⟨sender, 5, ⟨List.replicate 32 2, rfl⟩⟩
    let second := Tx.ofEthTx (.ok [[2]]) liveEth
    let etp := ((EthTxPool.empty.insert (fun _ => 0) none first).1.insert (fun _ => 0) none
      second).1
    let etp' := (etp.remove first).1
    (DistinctHashes (fun tx => tx = first ∨ tx = second) ∧
      EthTxPool.Reaches (fun tx => tx = first ∨ tx = second) .empty etp ∧
      etp.priorityNonceMempool.txs second.key = some second ∧ first.key = second.key ∧
      (⟨List.replicate 32 1, rfl⟩ : Hash) ≠ liveEth.hash) ∧
    (etp.remove first).2 = none ∧ etp'.priorityNonceMempool.txs second.key = none ∧
      etp'.hashAt liveEth.sender liveEth.nonce = none ∧
      etp'.ethTxCache liveEth.hash = some liveEth ∧
      ∀ key tx, etp'.priorityNonceMempool.txs key = some tx → tx.ethTx ≠ some liveEth := by
  intro sender first liveEth second etp etp'
  have hashes := distinctHashes_replacing sender 5
  have reach : EthTxPool.Reaches (fun tx => tx = first ∨ tx = second) .empty etp :=
    (Relation.ReflTransGen.single ⟨.insert (fun _ => 0) none first, .inl rfl, rfl⟩).tail
      ⟨.insert (fun _ => 0) none second, .inr rfl, rfl⟩
  have held : etp.priorityNonceMempool.txs second.key = some second := by decide
  have superseded : (⟨List.replicate 32 1, rfl⟩ : Hash) ≠ liveEth.hash := by decide
  exact ⟨⟨hashes, reach, held, rfl, superseded⟩,
    remove_superseded_orphans_cache hashes reach held rfl rfl rfl superseded⟩

end Replacement

end Molaris.Mempool
