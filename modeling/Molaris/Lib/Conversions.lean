import Molaris.Bank.Keeper

/-!
# Coins from contract input

`ExtractCoinsFromInput` and `ExtractCoinFromInputToCoin` turn the coins a contract passes to a
precompile into SDK coins. The input arrives ABI-decoded, so every amount is a `uint256`, and the
denoms are whatever the contract chose. Both functions return `ErrInvalidCoin` only for an input
of the wrong type, or for a list with no coin left, and build their coins with the SDK's
constructors `sdk.NewCoins` and `sdk.NewCoin`, which panic on a coin set or coin they reject.
-/

namespace Molaris.Lib

open Bank

/-- The struct `utils.GetAs` decodes an input coin into, `{Amount *big.Int; Denom string}`, with
the amount the ABI decoder always sets. -/
structure CosmosCoin where
  amount : Int
  denom : String
deriving DecidableEq, Repr

/-- Modelled from the spec: `precompile.ErrInvalidCoin` is declared outside the sources. The
functions below only return it, so it is one fixed error whose text is its name. -/
def errInvalidCoin : String := "ErrInvalidCoin"

/-- The body of `ExtractCoinsFromInput`'s loop:
`sdk.Coin{Denom: evmCoin.Denom, Amount: sdkmath.NewIntFromBigInt(evmCoin.Amount)}`. -/
def toSdkCoin (evmCoin : CosmosCoin) : Except String Coin := do
  let amount ← newIntFromBigInt evmCoin.amount
  pure ⟨evmCoin.denom, amount⟩

/-- `lib.ExtractCoinsFromInput`, given what `utils.GetAs` makes of the input: its coins, or
`none` when the input is not a list of them. The outer error is a panic, the inner one the error
returned. -/
def extractCoinsFromInput (coins : Option (List CosmosCoin)) :
    Except String (Except String Coins) :=
  match coins with
  | none => pure (.error errInvalidCoin)
  | some amounts => do
      let sdkCoins ← amounts.mapM toSdkCoin
      let sdkCoins ← newCoins sdkCoins
      if sdkCoins.length = 0 then pure (.error errInvalidCoin) else pure (.ok sdkCoins)

/-- `lib.ExtractCoinFromInputToCoin`, given what `utils.GetAs` makes of the input. The outer
error is a panic, the inner one the error returned. -/
def extractCoinFromInputToCoin (coin : Option CosmosCoin) : Except String (Except String Coin) :=
  match coin with
  | none => pure (.error errInvalidCoin)
  | some amounts => do
      let amount ← newIntFromBigInt amounts.amount
      let sdkCoin ← newCoin amounts.denom amount
      pure (.ok sdkCoin)

/-- `lib.SdkCoinToEvmCoin`: the coin with its amount as a `*big.Int`. The generated
`libgenerated.CosmosCoin` has the fields of the struct `utils.GetAs` decodes, so a contract that
passes it back hands in the same values. -/
def sdkCoinToEvmCoin (coin : Coin) : CosmosCoin :=
  ⟨coin.amount, coin.denom⟩

/-- `lib.SdkCoinsToEvmCoins`, which the bank precompile's balance and supply queries return. -/
def sdkCoinsToEvmCoins (sdkCoins : Coins) : List CosmosCoin :=
  sdkCoins.map sdkCoinToEvmCoin

/-- `banktypes.SendAuthorization`: its spend limit, and the addresses it allows to receive, as
the address codec's strings. -/
structure SendAuthorization where
  spendLimit : Coins
  allowList : List String

/-- The part of an `authz.Grant` `GetGrantAsSendAuth` reads: its authorization, as the
`*banktypes.SendAuthorization` the cached value holds or `none` for an authorization of another
type, and its expiration, `none` for nil. Times are read on one scale, that of the block time. -/
structure Grant where
  authorization : Option SendAuthorization
  expiration : Option Int

/-- Modelled from the spec: `precompile.ErrInvalidGrantType` is declared outside the sources. -/
def errInvalidGrantType : String := "ErrInvalidGrantType"

/-- `lib.GetGrantAsSendAuth`: the send authorizations of the grants that have not expired at
`blocktime`, in order; the loop returns `ErrInvalidGrantType` at the first unexpired grant of
another type. -/
def getGrantAsSendAuth (grants : List Grant) (blocktime : Int) :
    Except String (List SendAuthorization) :=
  match grants with
  | [] => .ok []
  | grant :: grants =>
      if grant.expiration.all (blocktime < ·) then
        match grant.authorization with
        | some sendAuth => (sendAuth :: ·) <$> getGrantAsSendAuth grants blocktime
        | none => .error errInvalidGrantType
      else getGrantAsSendAuth grants blocktime

/-- The ABI type of a coin's amount: `uint256`. -/
def IsUint256 (amount : Int) : Prop := 0 ≤ amount ∧ amount < 2 ^ 256

instance (amount : Int) : Decidable (IsUint256 amount) := inferInstanceAs (Decidable (_ ∧ _))

theorem IsUint256.natAbs_lt {amount : Int} (uint256 : IsUint256 amount) :
    amount.natAbs < 2 ^ maxBitLen := by
  unfold IsUint256 at uint256
  unfold maxBitLen
  omega

theorem toSdkCoin_of_uint256 (evmCoin : CosmosCoin) (uint256 : IsUint256 evmCoin.amount) :
    toSdkCoin evmCoin = .ok ⟨evmCoin.denom, evmCoin.amount⟩ := by
  simp [toSdkCoin, newIntFromBigInt_of_lt uint256.natAbs_lt, bind, Except.bind, pure, Except.pure]

theorem mapM_toSdkCoin (amounts : List CosmosCoin)
    (uint256 : ∀ evmCoin ∈ amounts, IsUint256 evmCoin.amount) :
    amounts.mapM toSdkCoin = .ok (amounts.map fun evmCoin => ⟨evmCoin.denom, evmCoin.amount⟩) := by
  induction amounts with
  | nil => rfl
  | cons evmCoin rest induction =>
      rw [List.mapM_cons, toSdkCoin_of_uint256 evmCoin (uint256 evmCoin (.head _)),
        induction fun other member => uint256 other (.tail _ member)]
      rfl

theorem extractCoinsFromInput_some (amounts : List CosmosCoin)
    (uint256 : ∀ evmCoin ∈ amounts, IsUint256 evmCoin.amount) :
    extractCoinsFromInput (some amounts) =
      (newCoins (amounts.map fun evmCoin => ⟨evmCoin.denom, evmCoin.amount⟩)).map fun sdkCoins =>
        if sdkCoins.length = 0 then .error errInvalidCoin else .ok sdkCoins := by
  simp only [extractCoinsFromInput]
  rw [mapM_toSdkCoin amounts uint256]
  cases result : newCoins (amounts.map fun evmCoin => ⟨evmCoin.denom, evmCoin.amount⟩) <;>
    simp [result, bind, Except.bind, Except.map, pure, Except.pure, apply_ite]

/-- For input coins whose amounts are `uint256`s, `ExtractCoinsFromInput` panics in `sdk.NewCoins`
exactly when a non-zero coin has an invalid denom or two non-zero coins share a denom; otherwise
it returns the non-zero coins sorted by denom, or `ErrInvalidCoin` when there are none. -/
theorem extractCoinsFromInput_eq (amounts : List CosmosCoin)
    (uint256 : ∀ evmCoin ∈ amounts, IsUint256 evmCoin.amount) :
    let nonzero := (amounts.map fun evmCoin => (⟨evmCoin.denom, evmCoin.amount⟩ : Coin)).filter
      (·.amount ≠ 0)
    extractCoinsFromInput (some amounts) =
      if (∀ coin ∈ nonzero, validateDenom coin.denom = true) ∧ (nonzero.map Coin.denom).Nodup then
        .ok (if nonzero = [] then .error errInvalidCoin
          else .ok (nonzero.insertionSort fun left right => left.denom ≤ right.denom))
      else .error "invalid coin set" := by
  intro nonzero
  have positive : ∀ coin ∈ nonzero, 0 < coin.amount := by
    intro coin member
    obtain ⟨mapped, nonzero⟩ := List.mem_filter.mp member
    obtain ⟨evmCoin, input, rfl⟩ := List.mem_map.mp mapped
    have := (uint256 evmCoin input).1
    simp only [ne_eq, decide_eq_true_eq] at nonzero ⊢
    omega
  have accepted : ((∀ coin ∈ nonzero, validateDenom coin.denom = true ∧ 0 < coin.amount) ∧
      (nonzero.map Coin.denom).Nodup) ↔
      (∀ coin ∈ nonzero, validateDenom coin.denom = true) ∧ (nonzero.map Coin.denom).Nodup :=
    and_congr_left' ⟨fun valid coin member => (valid coin member).1,
      fun valid coin member => ⟨valid coin member, positive coin member⟩⟩
  have empty : (nonzero.insertionSort fun left right => left.denom ≤ right.denom).length = 0 ↔
      nonzero = [] := by
    rw [(List.perm_insertionSort _ nonzero).length_eq, List.length_eq_zero]
  rw [extractCoinsFromInput_some amounts uint256, newCoins_eq]
  show Except.map _ (if _ then .ok (nonzero.insertionSort _) else .error _) = _
  rw [if_congr accepted rfl rfl]
  split_ifs with valid none <;> simp [Except.map, empty, none]

theorem extractCoinFromInputToCoin_eq (evmCoin : CosmosCoin) (uint256 : IsUint256 evmCoin.amount) :
    extractCoinFromInputToCoin (some evmCoin) =
      if validateDenom evmCoin.denom then .ok (.ok ⟨evmCoin.denom, evmCoin.amount⟩)
      else .error "invalid denom" := by
  have nonneg : ¬ evmCoin.amount < 0 := Int.not_lt.mpr uint256.1
  by_cases valid : validateDenom evmCoin.denom <;>
    simp [extractCoinFromInputToCoin, newIntFromBigInt_of_lt uint256.natAbs_lt, newCoin, valid,
      nonneg, bind, Except.bind, pure, Except.pure]

/-- Input the ABI decoder accepts, with a one-letter denom or with two coins of one denom, makes
`ExtractCoinsFromInput` panic in `sdk.NewCoins`, and a one-letter denom makes
`ExtractCoinFromInputToCoin` panic in `sdk.NewCoin`: neither returns `ErrInvalidCoin`. -/
theorem extract_coins_panics_on_bad_denoms :
    extractCoinsFromInput (some [⟨1, "a"⟩]) = .error "invalid coin set" ∧
      extractCoinsFromInput (some [⟨1, "umito"⟩, ⟨2, "umito"⟩]) = .error "invalid coin set" ∧
      extractCoinFromInputToCoin (some ⟨1, "a"⟩) = .error "invalid denom" :=
  ⟨(extractCoinsFromInput_eq _ (by simp [IsUint256])).trans (if_neg (by decide)),
    (extractCoinsFromInput_eq _ (by simp [IsUint256])).trans (if_neg (by decide)),
    (extractCoinFromInputToCoin_eq _ (by simp [IsUint256])).trans (if_neg (by decide))⟩

section RoundTrip

theorem amount_pos_of_mem_nonzero {amounts : List CosmosCoin}
    (uint256 : ∀ evmCoin ∈ amounts, IsUint256 evmCoin.amount) {coin : Coin}
    (member : coin ∈ (amounts.map fun evmCoin => (⟨evmCoin.denom, evmCoin.amount⟩ : Coin)).filter
      (·.amount ≠ 0)) :
    0 < coin.amount := by
  obtain ⟨mapped, nonzero⟩ := List.mem_filter.mp member
  obtain ⟨evmCoin, input, rfl⟩ := List.mem_map.mp mapped
  have := (uint256 evmCoin input).1
  simp only [ne_eq, decide_eq_true_eq] at nonzero ⊢
  omega

theorem extractCoinsFromInput_sdkCoinsToEvmCoins (coins : Coins)
    (valid : validateCoins coins = true) (bounded : ∀ coin ∈ coins, coin.amount < 2 ^ 256) :
    extractCoinsFromInput (some (sdkCoinsToEvmCoins coins)) =
      .ok (if coins = [] then .error errInvalidCoin else .ok coins) := by
  obtain ⟨positive, chain⟩ := (validateCoins_iff coins).mp valid
  have uint256 : ∀ evmCoin ∈ sdkCoinsToEvmCoins coins, IsUint256 evmCoin.amount := by
    simp only [sdkCoinsToEvmCoins, List.mem_map]
    rintro _ ⟨coin, member, rfl⟩
    exact ⟨(positive coin member).2.le, bounded coin member⟩
  have back : ((sdkCoinsToEvmCoins coins).map fun evmCoin =>
      (⟨evmCoin.denom, evmCoin.amount⟩ : Coin)) = coins := by
    rw [sdkCoinsToEvmCoins, List.map_map]
    exact List.map_id' coins
  have nonzero : coins.filter (·.amount ≠ 0) = coins :=
    List.filter_eq_self.mpr fun coin member => by simpa using (positive coin member).2.ne'
  have increasing := List.chain'_iff_pairwise.mp chain
  have sorted : coins.Sorted fun left right => left.denom ≤ right.denom :=
    List.pairwise_map.mp (increasing.imp le_of_lt)
  rw [extractCoinsFromInput_eq _ uint256, back, nonzero, sorted.insertionSort_eq,
    if_pos ⟨fun coin member => (positive coin member).1, List.Sorted.nodup increasing⟩]

theorem validateCoins_of_extractCoinsFromInput {coins : Option (List CosmosCoin)} {sdkCoins : Coins}
    (extracted : extractCoinsFromInput coins = .ok (.ok sdkCoins)) : validateCoins sdkCoins = true := by
  rcases coins with _ | amounts
  · cases extracted
  simp only [extractCoinsFromInput, bind, Except.bind] at extracted
  split at extracted
  · cases extracted
  split at extracted
  · cases extracted
  rename_i sorted
  simp only [newCoins] at sorted
  split_ifs at sorted extracted with valid
  · cases extracted
  · cases sorted
    cases extracted
    exact valid

end RoundTrip

section Grants

theorem getGrantAsSendAuth_eq (grants : List Grant) (blocktime : Int) :
    getGrantAsSendAuth grants blocktime =
      let live := grants.filter fun grant => grant.expiration.all (blocktime < ·)
      if live.all (·.authorization.isSome) then .ok (live.filterMap (·.authorization))
      else .error errInvalidGrantType := by
  induction grants with
  | nil => rfl
  | cons grant grants induction =>
      rw [getGrantAsSendAuth, induction]
      by_cases unexpired : grant.expiration.all (blocktime < ·) = true
      · obtain ⟨_ | sendAuth, expiration⟩ := grant
        · simp [unexpired]
        · simp only [unexpired, if_true, List.filter_cons, List.all_cons, List.filterMap_cons,
            Option.isSome_some, Bool.true_and]
          split_ifs <;> rfl
      · simp [unexpired]

end Grants

/-- The EVM coin format round trips. Coins a bank query returns (valid, with `sdk.Int` amounts
below `2 ^ 256`), handed out by `SdkCoinsToEvmCoins` and passed back in, are read back unchanged
by `ExtractCoinsFromInput`, an empty set as `ErrInvalidCoin`. The coins `ExtractCoinsFromInput`
returns for `uint256` amounts are always such coins, so a second trip gives them back again. And
`ExtractCoinFromInputToCoin` reads back `SdkCoinToEvmCoin` of a coin with a valid denom and an
amount in `[0, 2 ^ 256)`. -/
theorem evm_coin_format_round_trip :
    (∀ coins : Coins, validateCoins coins = true → (∀ coin ∈ coins, coin.amount < 2 ^ 256) →
      extractCoinsFromInput (some (sdkCoinsToEvmCoins coins)) =
        .ok (if coins = [] then .error errInvalidCoin else .ok coins)) ∧
    (∀ (amounts : List CosmosCoin) (coins : Coins),
      (∀ evmCoin ∈ amounts, IsUint256 evmCoin.amount) →
      extractCoinsFromInput (some amounts) = .ok (.ok coins) →
      validateCoins coins = true ∧
        extractCoinsFromInput (some (sdkCoinsToEvmCoins coins)) = .ok (.ok coins)) ∧
    ∀ coin : Coin, validateDenom coin.denom = true → IsUint256 coin.amount →
      extractCoinFromInputToCoin (some (sdkCoinToEvmCoin coin)) = .ok (.ok coin) := by
  refine ⟨extractCoinsFromInput_sdkCoinsToEvmCoins, fun amounts coins uint256 extracted => ?_,
    fun coin valid uint256 => (extractCoinFromInputToCoin_eq _ uint256).trans (if_pos valid)⟩
  rw [extractCoinsFromInput_eq _ uint256] at extracted
  split_ifs at extracted with accepted none
  · simp at extracted
  obtain rfl := (Except.ok.inj (Except.ok.inj extracted)).symm
  have perm := List.perm_insertionSort (fun left right : Coin => left.denom ≤ right.denom)
    ((amounts.map fun evmCoin => (⟨evmCoin.denom, evmCoin.amount⟩ : Coin)).filter (·.amount ≠ 0))
  have valid := (validateCoins_insertionSort _).mpr
    ⟨fun coin member => ⟨accepted.1 coin member, amount_pos_of_mem_nonzero uint256 member⟩,
      accepted.2⟩
  refine ⟨valid, ?_⟩
  rw [extractCoinsFromInput_sdkCoinsToEvmCoins _ valid, if_neg]
  · intro empty
    have length := perm.length_eq
    rw [empty] at length
    exact none (List.eq_nil_of_length_eq_zero length.symm)
  · intro coin member
    obtain ⟨mapped, _⟩ := List.mem_filter.mp (perm.mem_iff.mp member)
    obtain ⟨evmCoin, input, rfl⟩ := List.mem_map.mp mapped
    exact (uint256 evmCoin input).2

end Molaris.Lib