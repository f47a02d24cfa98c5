import MeshCore.Identity.Store
import MeshCore.Library.Least
import MeshCore.Library.Recency
import MeshCore.Library.Table
import MeshCore.Library.Run

/-
  The cache of shared secrets over any sequence of requests.
  What it answers is what would be derived; what it drops is
  what was asked for longest ago, until the counter of the
  requests has run through all of its values.

  Key definitions include:
    * `Store.asked`
    * `Store.Cached`
    * `Store.DropsOldest`

  Key facts include:
    * `Store.Cached.secretFor`, `Store.Cached.asked`
    * `Store.leastRecent_isFirst`
    * `Store.cache_cannot_be_observed`
-/

namespace MeshCore

namespace Store

open Recency

section Requests

variable [CryptoCore]

/- A store after a sequence of requests. -/
def asked (store : Store) (keys : List PublicKey) : Store :=
  keys.foldl (fun store pk => (store.secretFor pk).2) store

/-
  The cache after these requests. Every entry carries the
  number of the last request for its key, as far as the
  counter goes.
-/
structure Cached
    (selfSk : PrivateKey)
    (keys : List PublicKey)
    (store : Store) :
    Prop where
  selfSk : store.selfSk = selfSk
  clock : store.clock.toNat = keys.length % 2 ^ 64
  derived : store.CachesSecrets
  keyed : Table.Keyed CachedSecret.pk store.secrets
  bounded : store.secrets.length ≤ maxSecretCache
  used :
    ∀ entry ∈ store.secrets,
      entry.pk ∈ keys ∧
        entry.usedAt.toNat =
          lastUse keys entry.pk % 2 ^ 64

theorem cached_new
    (selfPk : PublicKey) (selfSk : PrivateKey) :
    Cached selfSk []
      { selfPk := selfPk, selfSk := selfSk } where
  selfSk := rfl
  clock := rfl
  derived := nofun
  keyed := List.nodup_nil
  bounded := Nat.zero_le _
  used := nofun

/- The clock of the next request. -/
theorem Cached.clock_succ
    {selfSk : PrivateKey} {keys : List PublicKey}
    {store : Store}
    (hCached : Cached selfSk keys store)
    (pk : PublicKey) :
    (store.clock + 1).toNat =
      (keys ++ [pk]).length % 2 ^ 64 := by
  rw [UInt64.toNat_add, hCached.clock, UInt64.toNat_one,
    List.length_append, List.length_singleton]
  omega

/- All that `secretFor` can do to the cache. -/
inductive Answered
    (store : Store)
    (pk : PublicKey) :
    Option SharedSecret → List CachedSecret → Prop where
| hit
    {row : Nat} {entry : CachedSecret}
    (hRow :
      store.secrets.findIdx? (·.pk == pk) = some row)
    (hEntry : store.secrets[row]? = some entry)
    (hPk : entry.pk = pk) :
    Answered store pk (some entry.secret)
      (store.secrets.modify row fun entry =>
        { entry with usedAt := store.clock + 1 })
| degenerate
    (hMiss : ∀ entry ∈ store.secrets, entry.pk ≠ pk)
    (hFails :
      CryptoCore.deriveShared store.selfSk pk = none) :
    Answered store pk none store.secrets
| stored
    {secret : SharedSecret}
    (hMiss : ∀ entry ∈ store.secrets, entry.pk ≠ pk)
    (hDerived :
      CryptoCore.deriveShared store.selfSk pk = some secret)
    (hRoom : store.secrets.length < maxSecretCache) :
    Answered store pk (some secret)
      (store.secrets ++
        [{ pk := pk, secret := secret,
           usedAt := store.clock + 1 }])
| replaced
    {secret : SharedSecret}
    (hMiss : ∀ entry ∈ store.secrets, entry.pk ≠ pk)
    (hDerived :
      CryptoCore.deriveShared store.selfSk pk = some secret)
    (hFull : maxSecretCache ≤ store.secrets.length) :
    Answered store pk (some secret)
      (store.secrets.set (leastRecent store.secrets)
        { pk := pk, secret := secret,
          usedAt := store.clock + 1 })

theorem secretFor_cases (store : Store) (pk : PublicKey) :
    Answered store pk (store.secretFor pk).1
      (store.secretFor pk).2.secrets := by
  unfold Store.secretFor
  cases hRow : store.secrets.findIdx? (·.pk == pk) with
  | some row =>
      rcases Table.getElem?_of_findIdx? hRow with
        ⟨entry, hEntry, hPk⟩
      simp only [hEntry, Option.map_some]
      exact .hit hRow hEntry (eq_of_beq hPk)
  | none =>
      have hMiss :
          ∀ entry ∈ store.secrets, entry.pk ≠ pk := by
        simpa using List.findIdx?_eq_none_iff.mp hRow
      cases hDerived :
          CryptoCore.deriveShared store.selfSk pk with
      | none => exact .degenerate hMiss hDerived
      | some secret =>
          simp only
          split
          next hRoom => exact .stored hMiss hDerived hRoom
          next hFull =>
            exact .replaced hMiss hDerived
              (Nat.le_of_not_lt hFull)

/- The rest of a store only counts the request. -/
theorem secretFor_eq (store : Store) (pk : PublicKey) :
    (store.secretFor pk).2 =
      { store with
        clock := store.clock + 1
        secrets := (store.secretFor pk).2.secrets } := by
  unfold Store.secretFor
  cases store.secrets.findIdx? (·.pk == pk) with
  | some row => rfl
  | none =>
      cases CryptoCore.deriveShared store.selfSk pk with
      | none => rfl
      | some secret => rfl

/- The step lemma. -/
theorem Cached.secretFor
    {selfSk : PrivateKey} {keys : List PublicKey}
    {store : Store}
    (hCached : Cached selfSk keys store)
    (pk : PublicKey) :
    Cached selfSk (keys ++ [pk]) (store.secretFor pk).2 := by
  have hCases := secretFor_cases store pk
  have hDerived := hCached.derived.secretFor pk
  have hClock := hCached.clock_succ pk
  rw [secretFor_eq] at hDerived ⊢
  generalize (store.secretFor pk).1 = answer at hCases
  generalize (store.secretFor pk).2.secrets = secrets at *
  -- an entry of another key stands as it was
  have hOther :
      ∀ entry ∈ store.secrets, entry.pk ≠ pk →
        entry.pk ∈ keys ++ [pk] ∧
          entry.usedAt.toNat =
            lastUse (keys ++ [pk]) entry.pk % 2 ^ 64 := by
    intro entry hMem hPk
    rcases hCached.used entry hMem with ⟨hUsed, hAt⟩
    rw [lastUse_concat, if_neg hPk.symm]
    exact ⟨List.mem_append_left _ hUsed, hAt⟩
  -- one of this key carries the number of the request
  have hThis :
      pk ∈ keys ++ [pk] ∧
        (store.clock + 1).toNat =
          lastUse (keys ++ [pk]) pk % 2 ^ 64 := by
    rw [lastUse_of_last, hClock, List.length_append]
    exact ⟨by simp, rfl⟩
  cases hCases with
  | @hit row entry hRow hEntry hPk =>
      have hKeyed :=
        hCached.keyed.modify
          (f := fun entry =>
            { entry with usedAt := store.clock + 1 })
          (fun _ => rfl) row
      refine
        { selfSk := hCached.selfSk
          clock := hClock
          derived := hDerived
          keyed := hKeyed
          bounded := by
            rw [List.length_modify]
            exact hCached.bounded
          used := ?_ }
      intro changed hMem
      rcases List.mem_iff_getElem?.mp hMem with ⟨i, hAt⟩
      by_cases hHere : row = i
      · rw [← hHere, List.getElem?_modify_eq, hEntry]
          at hAt
        cases hAt
        rw [hPk]
        exact hThis
      · rw [List.getElem?_modify_ne _ _ hHere] at hAt
        apply hOther changed (List.mem_of_getElem? hAt)
        intro hSame
        -- no key is in two rows
        have hRows :
            (store.secrets.map CachedSecret.pk)[row]? =
              (store.secrets.map CachedSecret.pk)[i]? := by
          simp only [List.getElem?_map, hEntry, hAt,
            Option.map_some, hPk, hSame]
        have hBound :=
          (List.getElem?_eq_some_iff.mp hEntry).1
        exact hHere
          (List.getElem?_inj (by simpa using hBound)
            hCached.keyed |>.mp hRows)
  | degenerate hMiss hFails =>
      exact
        { selfSk := hCached.selfSk
          clock := hClock
          derived := hDerived
          keyed := hCached.keyed
          bounded := hCached.bounded
          used := fun entry hMem =>
            hOther entry hMem (hMiss entry hMem) }
  | stored hMiss hSecret hRoom =>
      refine
        { selfSk := hCached.selfSk
          clock := hClock
          derived := hDerived
          keyed := hCached.keyed.append hMiss
          bounded := by
            rw [List.length_append]
            exact hRoom
          used := ?_ }
      intro entry hMem
      rcases List.mem_append.mp hMem with hOld | hNew
      · exact hOther entry hOld (hMiss entry hOld)
      · rw [List.mem_singleton.mp hNew]
        exact hThis
  | replaced hMiss hSecret hFull =>
      refine
        { selfSk := hCached.selfSk
          clock := hClock
          derived := hDerived
          keyed := ?_
          bounded := by
            rw [List.length_set]
            exact hCached.bounded
          used := ?_ }
      · rw [Table.Keyed, List.map_set]
        apply hCached.keyed.set
        intro hMem
        rcases List.mem_map.mp hMem with
          ⟨entry, hEntry, hSame⟩
        exact hMiss entry hEntry hSame
      · intro entry hMem
        rcases List.mem_or_eq_of_mem_set hMem with
          hOld | rfl
        · exact hOther entry hOld (hMiss entry hOld)
        · exact hThis

/- The run lemma. -/
theorem Cached.asked
    {selfSk : PrivateKey} {before : List PublicKey}
    {store : Store}
    (hCached : Cached selfSk before store)
    (keys : List PublicKey) :
    Cached selfSk (before ++ keys) (store.asked keys) := by
  induction keys generalizing before store with
  | nil =>
      rw [List.append_nil]
      exact hCached
  | cons pk keys ih =>
      rw [List.append_cons]
      exact ih (hCached.secretFor pk)

------------------------------------------------------------
-- What Is Dropped
------------------------------------------------------------

omit [CryptoCore] in
/- The entry that goes has the least number there is. -/
theorem leastRecent_isFirst
    {secrets : List CachedSecret}
    (hSome : 0 < secrets.length) :
    Least.IsFirst secrets.length
      (fun row =>
        ((secrets[row]?).map (·.usedAt.toNat)).getD 0)
      (fun _ => True) (leastRecent secrets) := by
  apply Least.foldl_isFirst
  · intro best hBest row hRow
    simp only [List.getElem?_eq_getElem hBest,
      List.getElem?_eq_getElem hRow, Option.map_some,
      Option.getD_some, UInt64.lt_iff_toNat_lt]
  · exact hSome

/-
  A request for a new key puts its secret in the place of
  the one entry that was asked for longest ago.
-/
def DropsOldest
    (keys : List PublicKey)
    (store : Store)
    (pk : PublicKey) :
    Prop :=
  ∃ (row : Nat) (victim fresh : CachedSecret),
    store.secrets[row]? = some victim ∧
      (∀ other ∈ store.secrets,
        other ≠ victim →
          lastUse keys victim.pk < lastUse keys other.pk) ∧
      fresh.pk = pk ∧
      (store.secretFor pk).2.secrets =
        store.secrets.set row fresh

/-
  The counter tells the entries apart where it has not run
  through all of its values between their last requests.
-/
def SameRound
    (keys : List PublicKey)
    (store : Store) :
    Prop :=
  ∃ round, ∀ entry ∈ store.secrets,
    lastUse keys entry.pk / 2 ^ 64 = round

omit [CryptoCore] in
/- It has not in the first of its rounds. -/
theorem sameRound_of_lt
    {keys : List PublicKey}
    (hShort : keys.length < 2 ^ 64)
    (store : Store) :
    store.SameRound keys := by
  refine ⟨0, fun entry _ => ?_⟩
  exact Nat.div_eq_of_lt
    (Nat.lt_of_le_of_lt (lastUse_le keys entry.pk) hShort)

theorem Cached.dropsOldest
    {selfSk : PrivateKey} {keys : List PublicKey}
    {store : Store}
    (hCached : Cached selfSk keys store)
    (hRound : store.SameRound keys)
    {pk : PublicKey}
    (hMiss : ∀ entry ∈ store.secrets, entry.pk ≠ pk)
    (hDerives :
      (CryptoCore.deriveShared selfSk pk).isSome = true)
    (hFull : store.secrets.length = maxSecretCache) :
    store.DropsOldest keys pk := by
  have hCases := secretFor_cases store pk
  unfold DropsOldest
  generalize (store.secretFor pk).1 = answer at hCases
  generalize (store.secretFor pk).2.secrets = secrets at *
  rw [← hCached.selfSk] at hDerives
  cases hCases with
  | hit hRow hEntry hPk =>
      exact absurd hPk
        (hMiss _ (List.mem_of_getElem? hEntry))
  | degenerate _ hFails =>
      rw [hFails] at hDerives
      contradiction
  | stored _ _ hRoom =>
      rw [hFull] at hRoom
      exact absurd hRoom (Nat.lt_irrefl _)
  | replaced _ hSecret _ =>
      have hSome : 0 < store.secrets.length := by
        rw [hFull]
        decide
      have hFirst := leastRecent_isFirst hSome
      have hBound := hFirst.inside
      refine ⟨leastRecent store.secrets,
        store.secrets[leastRecent store.secrets], _,
        List.getElem?_eq_getElem hBound, ?_, rfl, rfl⟩
      intro other hOther hDiffers
      rcases List.mem_iff_getElem.mp hOther with
        ⟨row, hRow, rfl⟩
      have hVictim := List.getElem_mem hBound
      have hLeast := hFirst.least row hRow trivial
      simp only [List.getElem?_eq_getElem hBound,
        List.getElem?_eq_getElem hRow, Option.map_some,
        Option.getD_some] at hLeast
      generalize store.secrets[row] = other at *
      generalize store.secrets[leastRecent store.secrets] =
        victim at *
      rcases hRound with ⟨round, hRound⟩
      have hSame := hRound victim hVictim
      have hSame' := hRound other hOther
      rcases hCached.used victim hVictim with ⟨hUsed, hAt⟩
      rw [hAt, (hCached.used other hOther).2] at hLeast
      have hDiffer :
          lastUse keys victim.pk ≠
            lastUse keys other.pk := by
        intro hEq
        exact hDiffers
          (hCached.keyed.eq_of_key hOther hVictim
            (lastUse_inj hUsed hEq).symm)
      omega

/-
  After any requests the next one is answered as if there
  were no cache. The cache keeps to its limit, has no key
  twice and every key with its own secret; and where it is
  full, a new key takes the place of the one that was asked
  for longest ago, as long as the counter of the requests
  tells them apart.
-/
theorem cache_cannot_be_observed
    (selfPk : PublicKey) (selfSk : PrivateKey)
    (keys : List PublicKey) :
    let store : Store :=
      { selfPk := selfPk, selfSk := selfSk }
    (∀ pk,
      ((store.asked keys).secretFor pk).1 =
        CryptoCore.deriveShared selfSk pk) ∧
      (store.asked keys).secrets.length ≤ maxSecretCache ∧
      ((store.asked keys).secrets.map
        CachedSecret.pk).Nodup ∧
      (∀ entry ∈ (store.asked keys).secrets,
        CryptoCore.deriveShared selfSk entry.pk =
          some entry.secret) ∧
      ∀ pk,
        (∀ entry ∈ (store.asked keys).secrets,
          entry.pk ≠ pk) →
        (CryptoCore.deriveShared selfSk pk).isSome = true →
        (store.asked keys).secrets.length =
          maxSecretCache →
        ((store.asked keys).SameRound keys ∨
            keys.length < 2 ^ 64) →
          (store.asked keys).DropsOldest keys pk := by
  intro store
  have hCached := (cached_new selfPk selfSk).asked keys
  rw [List.nil_append] at hCached
  refine ⟨?_, hCached.bounded, hCached.keyed, ?_, ?_⟩
  · intro pk
    rw [hCached.derived.secretFor_eq, hCached.selfSk]
  · intro entry hMem
    rw [← hCached.selfSk]
    exact hCached.derived entry hMem
  · intro pk hMiss hDerives hFull hRound
    refine hCached.dropsOldest ?_ hMiss hDerives hFull
    rcases hRound with hSame | hShort
    · exact hSame
    · exact sameRound_of_lt hShort _

------------------------------------------------------------
-- When The Counter Runs Out
------------------------------------------------------------

/- A key that is in the cache is only marked as used. -/
theorem keys_secretFor
    {store : Store} {pk : PublicKey}
    (hHit : pk ∈ store.secrets.map CachedSecret.pk) :
    (store.secretFor pk).2.secrets.map CachedSecret.pk =
      store.secrets.map CachedSecret.pk := by
  have hCases := secretFor_cases store pk
  rcases List.mem_map.mp hHit with ⟨entry, hMem, hPk⟩
  generalize (store.secretFor pk).1 = answer at hCases
  generalize (store.secretFor pk).2.secrets = secrets at *
  cases hCases with
  | hit _ _ _ =>
      apply Table.map_modify
      exact fun _ => rfl
  | degenerate _ _ => rfl
  | stored hMiss _ _ => exact absurd hPk (hMiss entry hMem)
  | replaced hMiss _ _ =>
      exact absurd hPk (hMiss entry hMem)

theorem keys_asked_replicate
    {store : Store} {pk : PublicKey}
    (hHit : pk ∈ store.secrets.map CachedSecret.pk)
    (n : Nat) :
    (store.asked (List.replicate n pk)).secrets.map
        CachedSecret.pk =
      store.secrets.map CachedSecret.pk := by
  induction n generalizing store with
  | zero => rfl
  | succ n ih =>
      have hOne := keys_secretFor hHit
      have hRest :=
        @ih (store.secretFor pk).2 (by rwa [hOne])
      exact hRest.trans hOne

/- New keys are entered one behind the other. -/
theorem keys_asked_new
    {store : Store} {keys : List PublicKey}
    (hDerives :
      ∀ pk ∈ keys,
        (CryptoCore.deriveShared store.selfSk pk).isSome =
          true)
    (hNew :
      (store.secrets.map CachedSecret.pk ++ keys).Nodup)
    (hRoom :
      store.secrets.length + keys.length ≤
        maxSecretCache) :
    (store.asked keys).secrets.map CachedSecret.pk =
      store.secrets.map CachedSecret.pk ++ keys := by
  induction keys generalizing store with
  | nil => exact (List.append_nil _).symm
  | cons pk keys ih =>
      rw [List.forall_mem_cons] at hDerives
      rw [List.length_cons] at hRoom
      have hMiss :
          pk ∉ store.secrets.map CachedSecret.pk := by
        intro hMem
        exact List.disjoint_of_nodup_append hNew hMem
          List.mem_cons_self
      have hOne :
          (store.secretFor pk).2.secrets.map
              CachedSecret.pk =
            store.secrets.map CachedSecret.pk ++ [pk] := by
        have hCases := secretFor_cases store pk
        generalize (store.secretFor pk).1 = answer at hCases
        generalize (store.secretFor pk).2.secrets = secrets
          at *
        cases hCases with
        | @hit _ entry _ hEntry hPk =>
            exact absurd (List.mem_map.mpr
              ⟨entry, List.mem_of_getElem? hEntry, hPk⟩)
              hMiss
        | degenerate _ hFails =>
            have hSome := hDerives.1
            rw [hFails] at hSome
            contradiction
        | stored _ _ _ => rw [List.map_append]; rfl
        | replaced _ _ hFull => omega
      have hLength := congrArg List.length hOne
      rw [List.length_map, List.length_append,
        List.length_map, List.length_singleton] at hLength
      have hSelf :
          (store.secretFor pk).2.selfSk = store.selfSk := by
        rw [secretFor_eq]
      have hRest := @ih (store.secretFor pk).2
        (by rw [hSelf]; exact hDerives.2)
        (by rw [hOne, List.append_assoc]; exact hNew)
        (by omega)
      rw [hOne, List.append_assoc] at hRest
      exact hRest

/- Whatever takes the place of an entry takes the least. -/
theorem least_of_dropped
    {store : Store} {pk : PublicKey} {row : Nat}
    {victim fresh : CachedSecret}
    (hRow : store.secrets[row]? = some victim)
    (hMiss : pk ∉ store.secrets.map CachedSecret.pk)
    (hFull : store.secrets.length = maxSecretCache)
    (hFresh : fresh.pk = pk)
    (hSet :
      (store.secretFor pk).2.secrets =
        store.secrets.set row fresh) :
    row = leastRecent store.secrets := by
  have hBound := (List.getElem?_eq_some_iff.mp hRow).1
  have hHere : (store.secrets.set row fresh)[row]? = fresh :=
    List.getElem?_set_self hBound
  have hVictim : victim ≠ fresh := by
    rintro rfl
    exact hMiss (List.mem_map.mpr
      ⟨victim, List.mem_of_getElem? hRow, hFresh⟩)
  have hCases := secretFor_cases store pk
  rw [hSet] at hCases
  generalize (store.secretFor pk).1 = answer at hCases
  generalize hAll : store.secrets.set row fresh = secrets
    at hCases hHere
  cases hCases with
  | @hit _ entry _ hEntry hPk =>
      exact absurd (List.mem_map.mpr
        ⟨entry, List.mem_of_getElem? hEntry, hPk⟩) hMiss
  | degenerate _ _ =>
      cases hRow.symm.trans hHere
      exact absurd rfl hVictim
  | stored _ _ hRoom =>
      rw [hFull] at hRoom
      exact absurd hRoom (Nat.lt_irrefl _)
  | replaced _ _ _ =>
      by_contra hOther
      rw [List.getElem?_set_ne (Ne.symm hOther), hRow]
        at hHere
      exact hVictim (Option.some.inj hHere)

/-
  An entry whose last request has the number zero again is
  dropped, although none is more recent.
-/
theorem Cached.drops_latest
    {selfSk : PrivateKey} {keys : List PublicKey}
    {store : Store} {latest pk other : PublicKey}
    (hCached : Cached selfSk keys store)
    (hLatest : latest ∈ store.secrets.map CachedSecret.pk)
    (hWrapped : lastUse keys latest = 2 ^ 64)
    (hLength : keys.length = 2 ^ 64)
    (hOther : other ∈ store.secrets.map CachedSecret.pk)
    (hDiffers : other ≠ latest)
    (hMiss : pk ∉ store.secrets.map CachedSecret.pk)
    (hFull : store.secrets.length = maxSecretCache) :
    ¬ store.DropsOldest keys pk := by
  rintro ⟨row, victim, fresh, hRow, hOldest, hFresh, hSet⟩
  have hSome : 0 < store.secrets.length := by
    rw [hFull]
    decide
  have hLeast :=
    least_of_dropped hRow hMiss hFull hFresh hSet
  have hFirst := leastRecent_isFirst hSome
  rw [← hLeast] at hFirst
  rcases List.mem_map.mp hLatest with ⟨last, hLast, rfl⟩
  rcases List.mem_map.mp hOther with ⟨next, hNext, rfl⟩
  have hVictim := List.mem_of_getElem? hRow
  -- the counter is at zero for the latest of them
  have hZero : victim.usedAt.toNat = 0 := by
    rcases List.mem_iff_getElem?.mp hLast with ⟨i, hAt⟩
    have hBound := (List.getElem?_eq_some_iff.mp hAt).1
    have hLe := hFirst.least i hBound trivial
    simp only [hRow, hAt, Option.map_some,
      Option.getD_some, (hCached.used last hLast).2,
      hWrapped, Nat.mod_self] at hLe
    exact Nat.le_zero.mp hLe
  rcases hCached.used victim hVictim with ⟨hUsed, hAt⟩
  have hSince := lastUse_pos_iff.mpr hUsed
  have hMost := lastUse_le keys victim.pk
  by_cases hSame : last = victim
  · have hThen : next ≠ victim := by
      rintro rfl
      exact hDiffers (congrArg CachedSecret.pk hSame.symm)
    have hLess := hOldest next hNext hThen
    have hMost' := lastUse_le keys next.pk
    omega
  · have hLess := hOldest last hLast hSame
    omega

end Requests

section Example

open Sample

/- A key of one byte, and zeros behind it. -/
def keyOf (n : Nat) : PublicKey :=
  copyInto _ [UInt8.ofNat n]

/- As many keys as there is room for. -/
def fillers : List PublicKey :=
  (List.range maxSecretCache).map keyOf

/- Then one of them, over and over. -/
def stubborn (n : Nat) : List PublicKey :=
  fillers ++ List.replicate n (keyOf 0)

def newcomer : PublicKey := copyInto _ [0, 1]

def ownStore : Store :=
  { selfPk := keyOf 1, selfSk := copyInto _ [] }

theorem mem_fillers {n : Nat} (hn : n < maxSecretCache) :
    keyOf n ∈ fillers :=
  List.mem_map_of_mem (List.mem_range.mpr hn)

/- The first byte tells them apart. -/
theorem nodup_fillers : fillers.Nodup := by
  apply List.Nodup.map_on _ List.nodup_range
  intro m hm n hn hSame
  rw [List.mem_range, maxSecretCache] at hm hn
  have hByte := congrArg PublicKey.hash hSame
  simp only [PublicKey.hash, keyOf, toList_copyInto] at hByte
  have hNumber := congrArg UInt8.toNat hByte
  simp only [packetPublicKeySize, List.singleton_append,
    List.take_succ_cons, List.getD_cons_zero,
    UInt8.toNat_ofNat'] at hNumber
  omega

/- The second byte of the newcomer is not zero. -/
theorem newcomer_not_mem : newcomer ∉ fillers := by
  intro hMem
  rcases List.mem_map.mp hMem with ⟨n, _, hSame⟩
  have hBytes := congrArg Vector.toList hSame
  simp [keyOf, newcomer, packetPublicKeySize,
    List.replicate] at hBytes

theorem keys_asked_fillers :
    (ownStore.asked fillers).secrets.map CachedSecret.pk =
      fillers := by
  refine keys_asked_new (fun _ _ => rfl) nodup_fillers ?_
  rw [fillers, List.length_map, List.length_range]
  exact Nat.le_of_eq (Nat.zero_add _)

theorem keys_asked_stubborn (n : Nat) :
    (ownStore.asked (stubborn n)).secrets.map
        CachedSecret.pk =
      fillers := by
  have hMem : keyOf 0 ∈ fillers := mem_fillers (by decide)
  have hAsked :
      ownStore.asked (stubborn n) =
        (ownStore.asked fillers).asked
          (List.replicate n (keyOf 0)) :=
    List.foldl_append
  rw [hAsked,
    keys_asked_replicate (by rwa [keys_asked_fillers]),
    keys_asked_fillers]

/- So often that the counter is at zero with the last. -/
theorem latest_is_dropped
    {n : Nat}
    (hMany : maxSecretCache + (n + 1) = 2 ^ 64) :
    ¬ (ownStore.asked (stubborn (n + 1))).DropsOldest
        (stubborn (n + 1)) newcomer := by
  have hKeys := keys_asked_stubborn (n + 1)
  have hLast :
      stubborn (n + 1) = stubborn n ++ [keyOf 0] := by
    rw [stubborn, stubborn, List.append_assoc,
      List.replicate_succ']
  have hLength : (stubborn (n + 1)).length = 2 ^ 64 := by
    rw [stubborn, List.length_append, fillers,
      List.length_map, List.length_range,
      List.length_replicate]
    exact hMany
  have hWrapped :
      lastUse (stubborn (n + 1)) (keyOf 0) = 2 ^ 64 := by
    rw [← hLength, hLast, lastUse_of_last,
      List.length_append, List.length_singleton]
  have hFull :
      (ownStore.asked (stubborn (n + 1))).secrets.length =
        maxSecretCache := by
    have hAll := congrArg List.length hKeys
    rw [List.length_map] at hAll
    rw [hAll, fillers, List.length_map, List.length_range]
  have hCached :=
    (cached_new (keyOf 1) (copyInto _ [])).asked
      (stubborn (n + 1))
  rw [List.nil_append] at hCached
  have hFirst : keyOf 0 ∈ fillers := mem_fillers (by decide)
  have hSecond : keyOf 1 ∈ fillers := mem_fillers (by decide)
  have hNew := newcomer_not_mem
  rw [← hKeys] at hFirst hSecond hNew
  exact hCached.drops_latest hFirst hWrapped hLength
    hSecond (by decide +kernel) hNew hFull

/- The entry that was asked for last is not the oldest. -/
theorem counter_runs_out :
    ∃ keys : List PublicKey,
      (∀ entry ∈ (ownStore.asked keys).secrets,
        entry.pk ≠ newcomer) ∧
        (CryptoCore.deriveShared ownStore.selfSk
          newcomer).isSome = true ∧
        (ownStore.asked keys).secrets.length =
          maxSecretCache ∧
        ¬ (ownStore.asked keys).DropsOldest keys
            newcomer := by
  have hMany : ∃ n, maxSecretCache + (n + 1) = 2 ^ 64 := by
    refine ⟨2 ^ 64 - (maxSecretCache + 1), ?_⟩
    have hRoom : maxSecretCache = 256 := rfl
    omega
  rcases hMany with ⟨n, hMany⟩
  have hKeys := keys_asked_stubborn (n + 1)
  have hNew := newcomer_not_mem
  refine ⟨stubborn (n + 1), ?_, by decide +kernel, ?_,
    latest_is_dropped hMany⟩
  · intro entry hEntry hPk
    apply hNew
    rw [← hKeys, ← hPk]
    exact List.mem_map_of_mem hEntry
  · have hAll := congrArg List.length hKeys
    rw [List.length_map] at hAll
    rw [hAll, fillers, List.length_map, List.length_range]

end Example

end Store

end MeshCore
