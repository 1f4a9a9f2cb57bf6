import ZkPoR.RegistryRun

/-! # The authorization of entries

Three functions write the entry of an asset, and each one writes the whole entry
from a copy that it read.  `EntryWrite` lists them with what they checked.  From
it follow the invariant of a stored entry and the history behind it: who
registered the asset, who consented to the current reserve list, and that no call
without the authority changes anything.
-/
namespace ZkPoR
open ByteString CheckedInt TypedStore Transaction TransitionSystem

/-- A write of an entry: the call, the entry before it, and the entry after it. -/
inductive EntryWrite {H : Host} (invocation : Invocation H) (asset : Address) :
    Op → Option AssetEntry → AssetEntry → Prop
  | register {authority authenticity reserves tier hash}
      (authentic : Authentic invocation asset authority authenticity tier)
      (notReserve : authority ∉ reserves)
      (hashed : ZkPoR.reserveSetHash H.poseidon2 reserves = .ok hash)
      (auth : invocation.authorized authority = true)
      (reservesAuth : ∀ reserve ∈ reserves, invocation.authorized reserve = true) :
      EntryWrite invocation asset (.registerAsset asset authority authenticity reserves) none
        { authority, tier, reserves, reserveSetHash := hash, attestation := .empty }
  | replace {entry : AssetEntry} {reserves hash}
      (notReserve : entry.authority ∉ reserves)
      (hashed : ZkPoR.reserveSetHash H.poseidon2 reserves = .ok hash)
      (auth : invocation.authorized entry.authority = true)
      (reservesAuth : ∀ reserve ∈ reserves, invocation.authorized reserve = true) :
      EntryWrite invocation asset (.setReserves asset reserves) (some entry)
        { entry with reserveSetHash := hash, reserves, attestation := .empty }
  | attest {entry : AssetEntry} {l r n proof a}
      (auth : invocation.authorized entry.authority = true) :
      EntryWrite invocation asset (.submitAttestation asset l r n proof) (some entry)
        { entry with attestation := .filled a }

/-- What a stored entry satisfies. -/
structure AssetEntry.WellFormed (H : Host) (entry : AssetEntry) : Prop where
  reserveSet : ReserveSet entry.reserves
  notReserve : entry.authority ∉ entry.reserves
  hashed : ZkPoR.reserveSetHash H.poseidon2 entry.reserves = .ok entry.reserveSetHash

/-- The call installs a reserve list for an asset. -/
def Op.Installs : Op → Address → List Address → Prop
  | .registerAsset asset' _ _ reserves', asset, reserves => asset' = asset ∧ reserves' = reserves
  | .setReserves asset' reserves', asset, reserves => asset' = asset ∧ reserves' = reserves
  | _, _, _ => False

section Steps
variable {H : Host} {invocation : Invocation H} {op : Op} {s s' : State} {asset : Address}

/-- A call leaves an entry alone, or writes it in one of the three ways. -/
theorem Effect.entry_cases (h : Effect invocation s op s') (asset : Address) :
    s'.get (.asset asset) = s.get (.asset asset) ∨
      ∃ entry, s'.get (.asset asset) = some entry ∧
        EntryWrite invocation asset op (s.get (.asset asset)) entry := by
  rcases h.get_eq_or_writes (.asset asset) with heq | hwrites
  · exact .inl heq
  · right
    cases h with
    | registerAsset fresh authentic notReserve hashed auth reservesAuth =>
      obtain rfl : asset = _ := by simpa [Op.writes] using hwrites
      refine ⟨_, State.get_save_self .., ?_⟩
      rw [fresh]
      exact .register authentic notReserve hashed auth reservesAuth
    | setReserves registered notReserve hashed auth reservesAuth =>
      obtain rfl : asset = _ := by simpa [Op.writes] using hwrites
      refine ⟨_, State.get_save_self .., ?_⟩
      rw [registered]
      exact .replace notReserve hashed auth reservesAuth
    | submitAttestation registered _ _ _ _ auth =>
      obtain rfl : asset = _ := by simpa [Op.writes] using hwrites
      refine ⟨_, State.get_save_self .., ?_⟩
      rw [registered]
      exact .attest auth
    | _ => simp [Op.writes] at hwrites

variable {before : Option AssetEntry} {entry : AssetEntry}

/-- The authority of a write authorized it. -/
theorem EntryWrite.auth (h : EntryWrite invocation asset op before entry) :
    invocation.authorized entry.authority = true := by
  cases h <;> assumption

/-- A write of a stored entry keeps its authority and its tier. -/
theorem EntryWrite.keeps {old : AssetEntry}
    (h : EntryWrite invocation asset op (some old) entry) :
    entry.authority = old.authority ∧ entry.tier = old.tier := by
  cases h <;> exact ⟨rfl, rfl⟩

theorem EntryWrite.wellFormed (h : EntryWrite invocation asset op before entry)
    (hbefore : ∀ old, before = some old → old.WellFormed H) : entry.WellFormed H := by
  cases h with
  | register _ notReserve hashed =>
    exact ⟨(reserveSetHash_eq_ok.mp hashed).1, notReserve, hashed⟩
  | replace notReserve hashed =>
    exact ⟨(reserveSetHash_eq_ok.mp hashed).1, notReserve, hashed⟩
  | attest =>
    obtain ⟨hset, hnot, hhash⟩ := hbefore _ rfl
    exact ⟨hset, hnot, hhash⟩

end Steps

/-! ## Entries over a whole run -/

namespace RegistryRun
variable {H : Host} (run : RegistryRun H) {asset : Address}

/-- Every step leaves an entry alone, or is a call that writes it. -/
theorem entry_step (t : Nat) (asset : Address) :
    (run.state (t + 1)).get (.asset asset) = (run.state t).get (.asset asset) ∨
      ∃ invocation op entry, run.Calls t invocation op ∧
        (run.state (t + 1)).get (.asset asset) = some entry ∧
        EntryWrite invocation asset op ((run.state t).get (.asset asset)) entry := by
  rcases run.step t with ⟨invocation, op, hcall⟩ | hquiet
  · rcases hcall.effect.entry_cases asset with heq | ⟨entry, hentry, hwrite⟩
    · exact .inl heq
    · exact .inr ⟨invocation, op, entry, hcall, hentry, hwrite⟩
  · exact .inl (hquiet.get _)

theorem entry_wellFormed {t : Nat} {entry : AssetEntry}
    (h : (run.state t).get (.asset asset) = some entry) : entry.WellFormed H := by
  induction t generalizing entry with
  | zero =>
    rw [show run.state 0 = run.first from rfl, run.first_start.get] at h
    cases h
  | succ t ih =>
    rcases run.entry_step t asset with heq | ⟨_, _, entry', _, hentry, hwrite⟩
    · exact ih (heq ▸ h)
    · obtain rfl : entry' = entry := Option.some.inj (hentry.symm.trans h)
      exact hwrite.wellFormed fun old hold => ih hold

/-- An entry stays, with its authority and its tier. -/
theorem entry_stable {t u : Nat} (htu : t ≤ u) {entry : AssetEntry}
    (h : (run.state t).get (.asset asset) = some entry) :
    ∃ entry', (run.state u).get (.asset asset) = some entry' ∧
      entry'.authority = entry.authority ∧ entry'.tier = entry.tier := by
  refine Run.stable run (P := fun s => ∃ entry', s.get (.asset asset) = some entry' ∧
    entry'.authority = entry.authority ∧ entry'.tier = entry.tier) (fun v hv => ?_) htu
    ⟨entry, h, rfl, rfl⟩
  obtain ⟨old, hold, hauthority, htier⟩ := hv
  rcases run.entry_step v asset with heq | ⟨_, _, entry', _, hentry, hwrite⟩
  · exact ⟨old, heq ▸ hold, hauthority, htier⟩
  · rw [hold] at hwrite
    exact ⟨entry', hentry, hwrite.keeps.1.trans hauthority, hwrite.keeps.2.trans htier⟩

/-- **The call that registered an asset.**  The authority and every reserve that
the call lists authorized it, and the tier is the one that the call established. -/
structure RegisteredBy (asset : Address) (entry : AssetEntry) (u : Nat)
    (invocation : Invocation H) (authenticity : AssetAuthenticity) (reserves : List Address) :
    Prop where
  call : run.Calls u invocation
    (.registerAsset asset entry.authority authenticity reserves)
  auth : invocation.authorized entry.authority = true
  reservesAuth : ∀ reserve ∈ reserves, invocation.authorized reserve = true
  /-- The issuer inside a serialized asset whose canonical contract is the asset. -/
  classic : entry.tier = .classicIssuer → ∃ serializedAsset,
    classicIssuer serializedAsset = .ok entry.authority ∧
      H.deployedAddress serializedAsset = some asset
  /-- The administrator that the token names in the call. -/
  administrator : entry.tier = .contractAdministrator →
    asset ≠ H.nativeContract ∧ invocation.admin asset = some entry.authority

theorem exists_registeredBy {t : Nat} {entry : AssetEntry}
    (h : (run.state t).get (.asset asset) = some entry) :
    ∃ u < t, ∃ invocation authenticity reserves,
      run.RegisteredBy asset entry u invocation authenticity reserves := by
  induction t generalizing entry with
  | zero =>
    rw [show run.state 0 = run.first from rfl, run.first_start.get] at h
    cases h
  | succ t ih =>
    -- an entry that is only rewritten has the registration of the one before it
    have hrewrite : ∀ old, (run.state t).get (.asset asset) = some old →
        entry.authority = old.authority → entry.tier = old.tier →
        ∃ u < t + 1, ∃ invocation authenticity reserves,
          run.RegisteredBy asset entry u invocation authenticity reserves := by
      intro old hold hauthority htier
      obtain ⟨u, hu, invocation, authenticity, reserves, hreg⟩ := ih hold
      refine ⟨u, by omega, invocation, authenticity, reserves, ?_⟩
      obtain ⟨call, auth, reservesAuth, classic, administrator⟩ := hreg
      rw [← hauthority] at call auth classic administrator
      rw [← htier] at classic administrator
      exact ⟨call, auth, reservesAuth, classic, administrator⟩
    rcases run.entry_step t asset with heq | ⟨invocation, op, entry', hcall, hentry, hwrite⟩
    · exact hrewrite entry (heq ▸ h) rfl rfl
    · obtain rfl : entry' = entry := Option.some.inj (hentry.symm.trans h)
      cases hold : (run.state t).get (.asset asset) with
      | some old =>
        rw [hold] at hwrite
        exact hrewrite old hold hwrite.keeps.1 hwrite.keeps.2
      | none =>
        rw [hold] at hwrite
        cases hwrite with
        | @register authority authenticity reserves tier hash authentic _ _ auth reservesAuth =>
          refine ⟨t, Nat.lt_succ_self t, invocation, authenticity, reserves, hcall, auth,
            reservesAuth, fun htier => ?_, fun htier => ?_⟩
          · dsimp only at htier
            cases authenticity with
            | classic x => exact ⟨x, authentic.1, authentic.2.1⟩
            | contract => exact absurd (htier.symm.trans authentic.2.2) (by decide)
          · dsimp only at htier
            cases authenticity with
            | classic x => exact absurd (htier.symm.trans authentic.2.2) (by decide)
            | contract => exact ⟨authentic.1, authentic.2.1⟩

/-- A successful registration finds no entry and leaves one. -/
theorem registration_spec {u : Nat} {invocation : Invocation H} {authority : Address}
    {authenticity : AssetAuthenticity} {reserves : List Address}
    (h : run.Calls u invocation (.registerAsset asset authority authenticity reserves)) :
    (run.state u).get (.asset asset) = none ∧
      ∃ entry, (run.state (u + 1)).get (.asset asset) = some entry := by
  have heffect := h.effect
  generalize run.state (u + 1) = after at heffect
  cases heffect with
  | registerAsset fresh => exact ⟨fresh, _, State.get_save_self ..⟩

/-- An asset registers one time. -/
theorem registration_unique {u v : Nat} {invocation invocation' : Invocation H}
    {authority authority' : Address} {authenticity authenticity' : AssetAuthenticity}
    {reserves reserves' : List Address}
    (hu : run.Calls u invocation (.registerAsset asset authority authenticity reserves))
    (hv : run.Calls v invocation' (.registerAsset asset authority' authenticity' reserves')) :
    u = v := by
  have hlt : ∀ {u v : Nat} {i i' : Invocation H} {a a' : Address} {x x' : AssetAuthenticity}
      {rs rs' : List Address}, run.Calls u i (.registerAsset asset a x rs) →
      run.Calls v i' (.registerAsset asset a' x' rs') → ¬ u < v := by
    intro u v _ _ _ _ _ _ _ _ hu hv huv
    obtain ⟨-, entry, hentry⟩ := run.registration_spec hu
    obtain ⟨entry', hentry', -⟩ := run.entry_stable (show u + 1 ≤ v by omega) hentry
    rw [(run.registration_spec hv).1] at hentry'
    cases hentry'
  exact Nat.le_antisymm (Nat.le_of_not_lt (hlt hv hu)) (Nat.le_of_not_lt (hlt hu hv))

/-- **The call that installed a reserve list.**  Every listed address authorized
it, and no later call before `t` installed another list. -/
structure InstalledBy (asset : Address) (reserves : List Address) (t v : Nat)
    (invocation : Invocation H) : Prop where
  before : v < t
  call : ∃ op, run.Calls v invocation op ∧ op.Installs asset reserves
  reservesAuth : ∀ reserve ∈ reserves, invocation.authorized reserve = true
  last : ∀ w invocation' op' reserves', v < w → w < t → run.Calls w invocation' op' →
    ¬ op'.Installs asset reserves'

/-- A call that installs a list writes the entry with it. -/
theorem installs_spec {w : Nat} {invocation : Invocation H} {op : Op} {reserves : List Address}
    (h : run.Calls w invocation op) (hinstalls : op.Installs asset reserves) :
    (∃ entry, (run.state (w + 1)).get (.asset asset) = some entry ∧ entry.reserves = reserves) ∧
      ∀ reserve ∈ reserves, invocation.authorized reserve = true := by
  have heffect := h.effect
  generalize run.state (w + 1) = after at heffect
  cases heffect with
  | registerAsset _ _ _ _ _ reservesAuth =>
    obtain ⟨rfl, rfl⟩ := hinstalls
    exact ⟨⟨_, State.get_save_self .., rfl⟩, reservesAuth⟩
  | setReserves _ _ _ _ reservesAuth =>
    obtain ⟨rfl, rfl⟩ := hinstalls
    exact ⟨⟨_, State.get_save_self .., rfl⟩, reservesAuth⟩
  | _ => exact absurd hinstalls (by simp [Op.Installs])

theorem exists_installedBy {t : Nat} {entry : AssetEntry}
    (h : (run.state t).get (.asset asset) = some entry) :
    ∃ v invocation, run.InstalledBy asset entry.reserves t v invocation := by
  induction t generalizing entry with
  | zero =>
    rw [show run.state 0 = run.first from rfl, run.first_start.get] at h
    cases h
  | succ t ih =>
    by_cases hinstall : ∃ invocation op reserves, run.Calls t invocation op ∧
        op.Installs asset reserves
    · obtain ⟨invocation, op, reserves, hcall, hinstalls⟩ := hinstall
      obtain ⟨⟨entry', hentry, rfl⟩, hauth⟩ := run.installs_spec hcall hinstalls
      obtain rfl : entry' = entry := Option.some.inj (hentry.symm.trans h)
      exact ⟨t, invocation, Nat.lt_succ_self t, ⟨op, hcall, hinstalls⟩, hauth,
        fun w _ _ _ hvw hwt => absurd hwt (by omega)⟩
    · -- no list is installed now, so the entry has the list that it had
      have hold : ∃ old, (run.state t).get (.asset asset) = some old ∧
          old.reserves = entry.reserves := by
        rcases run.entry_step t asset with heq | ⟨invocation, op, entry', hcall, hentry, hwrite⟩
        · exact ⟨entry, heq ▸ h, rfl⟩
        · obtain rfl : entry' = entry := Option.some.inj (hentry.symm.trans h)
          generalize hbefore : (run.state t).get (.asset asset) = before at hwrite
          cases hwrite with
          | register => exact absurd ⟨_, _, _, hcall, rfl, rfl⟩ hinstall
          | replace => exact absurd ⟨_, _, _, hcall, rfl, rfl⟩ hinstall
          | attest => exact ⟨_, rfl, rfl⟩
      obtain ⟨old, hold, hreserves⟩ := hold
      obtain ⟨v, invocation, hbefore, hcall, hauth, hlast⟩ := ih hold
      rw [hreserves] at hcall hauth
      refine ⟨v, invocation, by omega, hcall, hauth,
        fun w invocation' op' reserves' hvw hwt hw => ?_⟩
      rcases Nat.lt_succ_iff_lt_or_eq.mp hwt with hlt | rfl
      · exact hlast w invocation' op' reserves' hvw hlt hw
      · exact fun hi => hinstall ⟨invocation', op', reserves', hw, hi⟩

/-- A call without the authority of an entry leaves the entry alone. -/
theorem entry_of_unauthorized {t : Nat} {invocation : Invocation H} {op : Op} {entry : AssetEntry}
    (hevent : run.event t = .call invocation op)
    (h : (run.state t).get (.asset asset) = some entry)
    (hauth : invocation.authorized entry.authority = false) :
    (run.state (t + 1)).get (.asset asset) = some entry := by
  rcases run.entry_step t asset with heq | ⟨invocation', op', entry', hcall, hentry, hwrite⟩
  · rw [heq, h]
  · obtain ⟨rfl, rfl⟩ : invocation' = invocation ∧ op' = op := by
      simpa using hcall.1.symm.trans hevent
    have hwriter := hwrite.auth
    rw [h] at hwrite
    rw [hwrite.keeps.1, hauth] at hwriter
    cases hwriter

/-- **The authorization of the entry of one asset over a run.** -/
structure EntryAuthorisation (asset : Address) : Prop where
  registered : ∀ t entry, (run.state t).get (.asset asset) = some entry →
    ∃ u < t, ∃ invocation authenticity reserves,
      run.RegisteredBy asset entry u invocation authenticity reserves
  registeredOnce : ∀ u v invocation invocation' authority authority' authenticity authenticity'
    reserves reserves',
    run.Calls u invocation (.registerAsset asset authority authenticity reserves) →
    run.Calls v invocation' (.registerAsset asset authority' authenticity' reserves') → u = v
  fixed : ∀ t u entry, t ≤ u → (run.state t).get (.asset asset) = some entry →
    ∃ entry', (run.state u).get (.asset asset) = some entry' ∧
      entry'.authority = entry.authority ∧ entry'.tier = entry.tier
  notNative : ∀ t entry, (run.state t).get (.asset asset) = some entry → asset ≠ H.nativeContract
  wellFormed : ∀ t entry, (run.state t).get (.asset asset) = some entry → entry.WellFormed H
  installed : ∀ t entry, (run.state t).get (.asset asset) = some entry →
    ∃ v invocation, run.InstalledBy asset entry.reserves t v invocation
  unauthorized : ∀ t invocation op entry, run.event t = .call invocation op →
    (run.state t).get (.asset asset) = some entry →
    invocation.authorized entry.authority = false →
    (run.state (t + 1)).get (.asset asset) = some entry

theorem classicIssuer_native :
    classicIssuer NATIVE_ASSET_XDR = .error .nativeAssetNotSupported := by
  decide +kernel

/-- **Entry authorization**, when no other serialized asset has the canonical
contract of the native asset. -/
theorem entry_authorisation (run : RegistryRun H) (asset : Address)
    (hdistinct : ∀ serializedAsset, H.deployedAddress serializedAsset = some H.nativeContract →
      serializedAsset = NATIVE_ASSET_XDR) : run.EntryAuthorisation asset where
  registered _ _ h := run.exists_registeredBy h
  registeredOnce _ _ _ _ _ _ _ _ _ _ hu hv := run.registration_unique hu hv
  fixed _ _ _ htu h := run.entry_stable htu h
  notNative t entry h := by
    obtain ⟨u, _, invocation, authenticity, reserves, hreg⟩ := run.exists_registeredBy h
    cases htier : entry.tier with
    | contractAdministrator => exact (hreg.administrator htier).1
    | classicIssuer =>
      rintro rfl
      obtain ⟨serializedAsset, hissuer, hdeployed⟩ := hreg.classic htier
      rw [hdistinct serializedAsset hdeployed, classicIssuer_native] at hissuer
      cases hissuer
  wellFormed _ _ h := run.entry_wellFormed h
  installed _ _ h := run.exists_installedBy h
  unauthorized _ _ _ _ hevent h hauth := run.entry_of_unauthorized hevent h hauth

/-- The sample run registers its asset, and the entry satisfies all of this. -/
theorem entry_authorisation_sample :
    (sampleRun sampleCalls).EntryAuthorisation (sampleContract 3) ∧
      (((sampleRun sampleCalls).state 4).get (.asset (sampleContract 3))).isSome := by
  refine ⟨entry_authorisation _ _ fun serializedAsset h => ?_, by decide +kernel⟩
  simp only [sampleHost] at h
  split at h
  · assumption
  · split at h
    · exact absurd h (by decide)
    · cases h

end RegistryRun
end ZkPoR
