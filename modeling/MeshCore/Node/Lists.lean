import MeshCore.Library.Sieve
import MeshCore.Node.Host
import MeshCore.Platform.Scan

/-
  The lists of the config: channels, each a name and a key
  in hexadecimal digits, and the hashes that are blocked.
  Both leave the digits to `sscanf`, which reads more than
  they are meant to.

  Key definitions include:
    * `Node.channelsFrom`, `Node.blockedFrom`
    * `Node.IsChannel`, `Node.exactChannel`
    * `Node.IsHash`, `Node.exactHash`
    * `Node.LooseChannel`, `Node.LooseHash`

  Key facts include:
    * `Node.channelFrom_eq`, `Node.hashFrom_eq`
    * `Node.lists_are_exact_iff`
-/

namespace MeshCore

open Platform

namespace Node

def maxChannels : Nat := 4
def maxChannelName : Nat := 32

def colon : UInt8 := 0x3A

------------------------------------------------------------
-- The Code
------------------------------------------------------------

/- A channel by its name. -/
structure NamedChannel where
  name : Bytes
  secret : SharedSecret
  hash : UInt8
deriving DecidableEq

/- What stands before and behind the first colon. -/
def nameAndHex (entry : Bytes) : Option (Bytes × Bytes) :=
  if ¬ entry.contains colon then none
  else
    let name := entry.takeWhile (· ≠ colon)
    let hex := (entry.dropWhile (· ≠ colon)).drop 1
    if name = [] ∨ maxChannelName < name.length ∨
        hex.length ≠ packetSharedSecretSize * 2 then
      none
    else some (name, hex)

/- Every byte is read where it should begin. -/
def secretFrom (hex : Bytes) : Option SharedSecret :=
  ((List.range packetSharedSecretSize).mapM fun i =>
    (sscanf2X (hex.drop (i * 2))).map (·.toUInt8)).map
      (copyInto packetSharedSecretSize)

section Channels

variable [CryptoCore]

def channelFrom (entry : Bytes) : Option NamedChannel :=
  (nameAndHex entry).bind fun (name, hex) =>
    (secretFrom hex).map fun secret =>
      { name := name
        secret := secret
        hash := channelHashOf secret }

/- The loop over the entries, which ends at one too many. -/
def addChannels (channels : List NamedChannel) :
    List Bytes → List NamedChannel
| [] => channels
| entry :: entries =>
    match channelFrom entry with
    | none => addChannels channels entries
    | some channel =>
        if maxChannels ≤ channels.length then channels
        else addChannels (channels ++ [channel]) entries

def channelsFrom (entries : List Bytes) :
    List NamedChannel :=
  addChannels [] entries

end Channels

def hashFrom (entry : Bytes) : Option UInt8 :=
  (sscanfX entry).bind fun value =>
    if 0xFF < value then none else some value.toUInt8

def blockedFrom (entries : List Bytes) : List UInt8 :=
  entries.filterMap hashFrom

/- The readers of the lists of a config. -/
def listReaders [CryptoCore] : ListReaders where
  blockedFrom := blockedFrom
  channelsFrom := fun entries =>
    (channelsFrom entries).map fun channel =>
      { secret := channel.secret
        hash := channel.hash }

------------------------------------------------------------
-- What An Entry Says
------------------------------------------------------------

/- The bytes that pairs of digits spell. -/
def bytesSpelt : Bytes → Bytes
| a :: b :: digits =>
    UInt8.ofNat (hexValue [a, b]) :: bytesSpelt digits
| _ => []

/- The parts of an entry, and how long they are. -/
structure IsNamed (entry name key : Bytes) : Prop where
  parts : entry = name ++ colon :: key
  noColon : colon ∉ name
  name_ne : name ≠ []
  name_le : name.length ≤ maxChannelName
  key_length : key.length = packetSharedSecretSize * 2

/- A name and a key, and the key is nothing but digits. -/
structure IsChannel
    [CryptoCore]
    (entry : Bytes)
    (channel : NamedChannel) :
    Prop where
  named :
    ∃ key,
      IsNamed entry channel.name key ∧
        key.all isXDigit ∧
        channel.secret.toList = bytesSpelt key
  hash : channel.hash = channelHashOf channel.secret

/- One or two digits, and a `0x` in front if one likes. -/
structure IsHash (entry : Bytes) (hash : UInt8) : Prop where
  digits :
    ∃ digits,
      (entry = digits ∨ entry = 0x30 :: 0x78 :: digits) ∧
        (digits.length = 1 ∨ digits.length = 2) ∧
        digits.all isXDigit ∧
        hash = UInt8.ofNat (hexValue digits)

theorem nameAndHex_eq_some_iff
    {entry name key : Bytes} :
    nameAndHex entry = some (name, key) ↔
      IsNamed entry name key := by
  simp only [nameAndHex]
  constructor
  · intro hParts
    split_ifs at hParts with hColon hSizes
    rw [Option.some.injEq, Prod.mk.injEq] at hParts
    rcases hParts with ⟨rfl, rfl⟩
    rw [not_or, not_or, not_not, Nat.not_lt] at hSizes
    rw [List.contains_iff_mem] at hColon
    have hSplit :
        entry.takeWhile (· ≠ colon) ++
            entry.dropWhile (· ≠ colon) =
          entry :=
      List.takeWhile_append_dropWhile
    have hHead :
        entry.dropWhile (· ≠ colon) =
          colon ::
            (entry.dropWhile (· ≠ colon)).drop 1 := by
      cases hRest : entry.dropWhile (· ≠ colon) with
      | nil =>
          rw [List.dropWhile_eq_nil_iff] at hRest
          exact absurd (hRest colon hColon) (by simp)
      | cons b rest =>
          have hNot := List.head?_dropWhile_not
            (fun b => decide (b ≠ colon)) entry
          rw [hRest] at hNot
          simpa using hNot
    refine ⟨?_, ?_, hSizes.1, hSizes.2.1, hSizes.2.2⟩
    · rw [← hHead, hSplit]
    · intro hMem
      have hNot := List.mem_takeWhile_imp hMem
      simp at hNot
  · rintro ⟨rfl, hNoColon, hNe, hLe, hLength⟩
    have hAll : ∀ b ∈ name, decide (b ≠ colon) = true := by
      intro b hb
      rw [decide_eq_true_eq]
      rintro rfl
      exact hNoColon hb
    have hName :
        (name ++ colon :: key).takeWhile (· ≠ colon) =
          name := by
      rw [List.takeWhile_append_of_pos hAll,
        List.takeWhile_cons_of_neg (by simp),
        List.append_nil]
    have hKey :
        (name ++ colon :: key).dropWhile (· ≠ colon) =
          colon :: key := by
      rw [List.dropWhile_append_of_pos hAll,
        List.dropWhile_cons_of_neg (by simp)]
    rw [if_neg (by simp), hName, hKey, List.drop_succ_cons,
      List.drop_zero, if_neg]
    rw [not_or, not_or, not_not, Nat.not_lt]
    exact ⟨hNe, hLe, hLength⟩

------------------------------------------------------------
-- Keys
------------------------------------------------------------

/- What is kept of an entry that says what it should. -/
def exactChannel
    [CryptoCore]
    (entry : Bytes) :
    Option NamedChannel :=
  (nameAndHex entry).bind fun (name, key) =>
    if key.all isXDigit then
      let secret :=
        copyInto packetSharedSecretSize (bytesSpelt key)
      some
        { name := name
          secret := secret
          hash := channelHashOf secret }
    else none

/-
  A key that has something else among its digits, and yet
  every byte of it begins with a digit, or with white space
  and a sign before one.
-/
def LooseChannel (entry : Bytes) : Prop :=
  ∃ name key,
    IsNamed entry name key ∧
      ¬ key.all isXDigit ∧
      ∀ i < packetSharedSecretSize,
        opensHex (key.drop (i * 2))

theorem length_bytesSpelt (key : Bytes) :
    (bytesSpelt key).length = key.length / 2 := by
  match key with
  | [] => rfl
  | [_] => simp [bytesSpelt]
  | a :: b :: digits =>
      rw [bytesSpelt, List.length_cons, length_bytesSpelt]
      simp only [List.length_cons]
      omega

/- Of digits the loop reads what they spell. -/
theorem mapM_sscanf2X
    {n : Nat} {key : Bytes}
    (hLength : key.length = n * 2)
    (hDigits : key.all isXDigit) :
    ((List.range n).mapM fun i =>
        (sscanf2X (key.drop (i * 2))).map (·.toUInt8)) =
      some (bytesSpelt key) := by
  induction n generalizing key with
  | zero =>
      rw [List.length_eq_zero_iff.mp hLength]
      rfl
  | succ n ih =>
      match key with
      | [] => simp at hLength
      | [_] =>
          rw [List.length_singleton] at hLength
          omega
      | a :: b :: digits =>
          simp only [List.all_cons, Bool.and_eq_true]
            at hDigits
          simp only [List.length_cons] at hLength
          have hRest := ih (by omega) hDigits.2.2
          have hShift :
              ((List.range n).map Nat.succ).mapM
                  (fun i =>
                    (sscanf2X
                      ((a :: b :: digits).drop
                        (i * 2))).map (·.toUInt8)) =
                some (bytesSpelt digits) := by
            rw [← hRest, List.mapM_map]
            congr 1
            funext i
            rw [Function.comp_apply, Nat.succ_mul]
            rfl
          have hFirst :
              (sscanf2X ((a :: b :: digits).drop
                  (0 * 2))).map (·.toUInt8) =
                some (UInt8.ofNat (hexValue [a, b])) := by
            rw [Nat.zero_mul, List.drop_zero,
              sscanf2X_digits hDigits.1 hDigits.2.1,
              Option.map_some, hexValue_pair]
            exact congrArg some (UInt32.toUInt8_ofNat' _)
          rw [List.range_succ_eq_map, List.mapM_cons, hFirst,
            hShift]
          rfl

theorem secretFrom_of_digits
    {key : Bytes}
    (hLength : key.length = packetSharedSecretSize * 2)
    (hDigits : key.all isXDigit) :
    secretFrom key =
      some
        (copyInto packetSharedSecretSize
          (bytesSpelt key)) := by
  rw [secretFrom, mapM_sscanf2X hLength hDigits]
  rfl

/- A key is taken if every byte of it can be read. -/
theorem secretFrom_isSome_iff (key : Bytes) :
    (secretFrom key).isSome ↔
      ∀ i < packetSharedSecretSize,
        opensHex (key.drop (i * 2)) := by
  rw [secretFrom, Option.isSome_map, Sieve.mapM_isSome_iff]
  simp only [List.mem_range, Option.isSome_map,
    sscanf2X_isSome_iff]

section Channels

variable [CryptoCore]

theorem exactChannel_eq_some_iff
    {entry : Bytes} {channel : NamedChannel} :
    exactChannel entry = some channel ↔
      IsChannel entry channel := by
  unfold exactChannel
  rw [Option.bind_eq_some_iff]
  constructor
  · rintro ⟨⟨name, key⟩, hParts, hChannel⟩
    rw [nameAndHex_eq_some_iff] at hParts
    dsimp only at hChannel
    split_ifs at hChannel with hDigits
    cases hChannel
    refine ⟨⟨key, hParts, hDigits, ?_⟩, rfl⟩
    apply toList_copyInto_of_length
    rw [length_bytesSpelt, hParts.key_length]
    rfl
  · rintro ⟨⟨key, hNamed, hDigits, hSecret⟩, hHash⟩
    refine ⟨(channel.name, key),
      nameAndHex_eq_some_iff.mpr hNamed, ?_⟩
    dsimp only
    rw [if_pos hDigits, ← hSecret, copyInto_toList, ← hHash]

/- An entry that is one is read as what it says. -/
theorem channelFrom_of_exact :
    Sieve.Finer exactChannel channelFrom := by
  intro entry channel hExact
  rw [exactChannel, Option.bind_eq_some_iff] at hExact
  rcases hExact with ⟨⟨name, key⟩, hParts, hChannel⟩
  dsimp only at hChannel
  split_ifs at hChannel with hDigits
  cases hChannel
  have hLength :=
    (nameAndHex_eq_some_iff.mp hParts).key_length
  rw [channelFrom, hParts, Option.bind_some]
  dsimp only
  rw [secretFrom_of_digits hLength hDigits]
  rfl

/- What is taken for a channel and is none is a loose one. -/
theorem channelFrom_loose_iff
    {entry : Bytes}
    (hNone : exactChannel entry = none) :
    channelFrom entry = none ↔ ¬ LooseChannel entry := by
  cases hParts : nameAndHex entry with
  | none =>
      refine iff_of_true ?_ ?_
      · rw [channelFrom, hParts]
        rfl
      · rintro ⟨name, key, hNamed, _⟩
        rw [nameAndHex_eq_some_iff.mpr hNamed] at hParts
        contradiction
  | some parts =>
      rcases parts with ⟨name, key⟩
      have hNotDigits : ¬ key.all isXDigit := by
        intro hDigits
        rw [exactChannel, hParts, Option.bind_some] at hNone
        dsimp only at hNone
        rw [if_pos hDigits] at hNone
        contradiction
      have hCode :
          channelFrom entry = none ↔
            ¬ (secretFrom key).isSome := by
        rw [channelFrom, hParts, Option.bind_some]
        dsimp only
        rw [Option.map_eq_none_iff]
        cases secretFrom key <;> simp
      rw [hCode, secretFrom_isSome_iff, not_iff_not]
      constructor
      · intro hOpens
        exact ⟨name, key, nameAndHex_eq_some_iff.mp hParts,
          hNotDigits, hOpens⟩
      · rintro ⟨other, key', hNamed, _, hOpens⟩
        rw [nameAndHex_eq_some_iff.mpr hNamed,
          Option.some.injEq, Prod.mk.injEq] at hParts
        rw [← hParts.2]
        exact hOpens

/- The loop is a sieve, as long as there is room. -/
theorem addChannels_eq
    {channels : List NamedChannel}
    (hRoom : channels.length ≤ maxChannels)
    (entries : List Bytes) :
    addChannels channels entries =
      channels ++
        (entries.filterMap channelFrom).take
          (maxChannels - channels.length) := by
  induction entries generalizing channels with
  | nil => simp [addChannels]
  | cons entry entries ih =>
      rw [addChannels]
      cases hChannel : channelFrom entry with
      | none =>
          rw [List.filterMap_cons_none hChannel]
          exact ih hRoom
      | some channel =>
          rw [List.filterMap_cons_some hChannel]
          dsimp only
          split
          · rename_i hFull
            have hNothing :
                maxChannels - channels.length = 0 := by
              omega
            rw [hNothing, List.take_zero, List.append_nil]
          · rename_i hNotFull
            have hLeft :
                maxChannels - channels.length =
                  maxChannels - (channels.length + 1) +
                    1 := by
              omega
            rw [ih (by simp; omega), hLeft,
              List.take_succ_cons, List.length_append,
              List.length_singleton, List.append_assoc]
            rfl

theorem channelsFrom_eq (entries : List Bytes) :
    channelsFrom entries =
      (entries.filterMap channelFrom).take maxChannels := by
  rw [channelsFrom, addChannels_eq (Nat.zero_le _)]
  rfl

end Channels

------------------------------------------------------------
-- Hashes
------------------------------------------------------------

/- The digits of an entry, behind a `0x` if there is one. -/
def digitsOf : Bytes → Bytes
| 0x30 :: 0x78 :: digits => digits
| digits => digits

def exactHash (entry : Bytes) : Option UInt8 :=
  let digits := digitsOf entry
  if (digits.length = 1 ∨ digits.length = 2) ∧
      digits.all isXDigit then
    some (UInt8.ofNat (hexValue digits))
  else none

/-
  An entry that is no hash, and yet begins with digits, past
  white space, a sign and a `0x`, whose number is one once
  it is cut to an `unsigned`.
-/
def LooseHash (entry : Bytes) : Prop :=
  (∀ hash, ¬ IsHash entry hash) ∧
    let (negative, digits) :=
      hexParts ((cString entry).dropWhile isSpace)
    digits ≠ [] ∧
      (strtoul negative digits).toNat % 2 ^ 32 ≤ 0xFF

theorem digitsOf_eq (entry : Bytes) :
    entry = digitsOf entry ∨
      entry = 0x30 :: 0x78 :: digitsOf entry := by
  unfold digitsOf
  split
  · exact .inr rfl
  · exact .inl rfl

theorem digitsOf_of_digits
    {digits : Bytes}
    (hDigits : digits.all isXDigit) :
    digitsOf digits = digits := by
  unfold digitsOf
  split
  · simp only [List.all_cons, Bool.and_eq_true] at hDigits
    exact absurd hDigits.2.1 (by decide)
  · rfl

theorem exactHash_eq_some_iff
    {entry : Bytes} {hash : UInt8} :
    exactHash entry = some hash ↔ IsHash entry hash := by
  simp only [exactHash]
  constructor
  · intro hExact
    split_ifs at hExact with hForm
    cases hExact
    exact ⟨digitsOf entry, digitsOf_eq entry, hForm.1,
      hForm.2, rfl⟩
  · rintro ⟨digits, hEntry, hLength, hDigits, rfl⟩
    have hSame : digitsOf entry = digits := by
      rcases hEntry with rfl | rfl
      · exact digitsOf_of_digits hDigits
      · rfl
    rw [hSame, if_pos ⟨hLength, hDigits⟩]

/- An entry that is one is read as what it says. -/
theorem hashFrom_of_exact :
    Sieve.Finer exactHash hashFrom := by
  intro entry hash hExact
  rcases exactHash_eq_some_iff.mp hExact with
    ⟨digits, hEntry, hLength, hDigits, rfl⟩
  have hLess := hexValue_lt hDigits hLength
  have hScan :
      sscanfX entry =
        some (UInt32.ofNat (hexValue digits)) := by
    rcases hEntry with rfl | rfl
    · exact (sscanfX_digits hDigits hLength).1
    · exact (sscanfX_digits hDigits hLength).2
  have hFits : ¬ 0xFF < UInt32.ofNat (hexValue digits) := by
    rw [UInt32.lt_iff_toNat_lt, UInt32.toNat_ofNat']
    change ¬ 255 < _
    omega
  rw [hashFrom, hScan, Option.bind_some, if_neg hFits]
  exact congrArg some (UInt32.toUInt8_ofNat' _)

/- What is taken for a hash and is none is a loose one. -/
theorem hashFrom_loose_iff
    {entry : Bytes}
    (hNone : exactHash entry = none) :
    hashFrom entry = none ↔ ¬ LooseHash entry := by
  have hNot : ∀ hash, ¬ IsHash entry hash := by
    intro hash hIs
    rw [exactHash_eq_some_iff.mpr hIs] at hNone
    contradiction
  rw [LooseHash, and_iff_right hNot, hashFrom, sscanfX,
    scanHex]
  generalize
    hexParts ((cString entry).dropWhile isSpace) = parts
  rcases parts with ⟨negative, digits⟩
  dsimp only
  by_cases hEmpty : digits = []
  · simp [hEmpty]
  · have hCut :
        0xFF < (strtoul negative digits).toUInt32 ↔
          ¬ (strtoul negative digits).toNat % 2 ^ 32 ≤
            0xFF := by
      rw [UInt32.lt_iff_toNat_lt, UInt64.toNat_toUInt32,
        Nat.not_le]
      rfl
    rw [if_neg hEmpty, Option.bind_some, and_iff_right hEmpty,
      ← hCut]
    simp

------------------------------------------------------------
-- Exactly
------------------------------------------------------------

section Channels

variable [CryptoCore]

/-
  After every entry, what is kept is what the entries so far
  say, up to as many as there is room for.
-/
def KeepsChannels (entries : List Bytes) : Prop :=
  ∀ k,
    channelsFrom (entries.take k) =
      ((entries.take k).filterMap exactChannel).take
        maxChannels

/- What is kept is what the entries say. -/
def KeepsHashes (entries : List Bytes) : Prop :=
  blockedFrom entries = entries.filterMap exactHash

/- No loose entry stands where there is room for it. -/
def NoLooseChannel (entries : List Bytes) : Prop :=
  ∀ k entry,
    entries[k]? = some entry →
      ((entries.take k).filterMap exactChannel).length <
          maxChannels →
        ¬ LooseChannel entry

theorem LooseChannel.exact_none
    {entry : Bytes}
    (hLoose : LooseChannel entry) :
    exactChannel entry = none := by
  rcases hLoose with ⟨name, key, hNamed, hDigits, _⟩
  rw [exactChannel, nameAndHex_eq_some_iff.mpr hNamed,
    Option.bind_some]
  dsimp only
  rw [if_neg hDigits]

theorem keepsChannels_iff (entries : List Bytes) :
    KeepsChannels entries ↔ NoLooseChannel entries := by
  have hSieve :=
    Sieve.take_eq_iff channelFrom_of_exact maxChannels
      entries
  simp only [KeepsChannels, channelsFrom_eq]
  rw [hSieve]
  constructor
  · intro hAll k entry hHere hRoom hLoose
    have hNone := hLoose.exact_none
    exact (channelFrom_loose_iff hNone).mp
      (hAll k entry hHere hRoom hNone) hLoose
  · intro hAll k entry hHere hRoom hNone
    exact (channelFrom_loose_iff hNone).mpr
      (hAll k entry hHere hRoom)

omit [CryptoCore] in
theorem keepsHashes_iff (entries : List Bytes) :
    KeepsHashes entries ↔
      ∀ entry ∈ entries, ¬ LooseHash entry := by
  rw [KeepsHashes, blockedFrom,
    Sieve.filterMap_eq_iff hashFrom_of_exact]
  constructor
  · intro hAll entry hEntry hLoose
    have hNone : exactHash entry = none := by
      rw [Option.eq_none_iff_forall_ne_some]
      intro hash hExact
      exact hLoose.1 hash (exactHash_eq_some_iff.mp hExact)
    exact (hashFrom_loose_iff hNone).mp
      (hAll entry hEntry hNone) hLoose
  · intro hAll entry hEntry hNone
    exact (hashFrom_loose_iff hNone).mpr (hAll entry hEntry)

/-
  The channels are those the entries say, and the hashes
  that are blocked, exactly if no entry among them is a
  loose one. What an entry says is its name and the bytes
  its digits spell, or the number of its digits.
-/
theorem lists_are_exact_iff :
    (∀ entry channel,
      exactChannel entry = some channel ↔
        IsChannel entry channel) ∧
    (∀ entry hash,
      exactHash entry = some hash ↔ IsHash entry hash) ∧
    (∀ entries,
      KeepsChannels entries ↔ NoLooseChannel entries) ∧
    ∀ entries,
      KeepsHashes entries ↔
        ∀ entry ∈ entries, ¬ LooseHash entry :=
  ⟨fun _ _ => exactChannel_eq_some_iff,
    fun _ _ => exactHash_eq_some_iff,
    keepsChannels_iff, keepsHashes_iff⟩

end Channels

section Example

open Sample

/- A key with a letter too far among its digits. -/
def mistypedChannel : Bytes :=
  ascii "a:1g" ++ List.replicate 62 0x30

/- A hash with something behind it. -/
def mistypedHash : Bytes :=
  ascii "1fzz"

theorem mistyped_entries_are_kept :
    ¬ KeepsChannels [mistypedChannel] ∧
      ¬ KeepsHashes [mistypedHash] := by
  constructor
  · intro hKeeps
    have hKept :
        channelsFrom [mistypedChannel] =
          ([mistypedChannel].filterMap exactChannel).take
            maxChannels :=
      hKeeps 1
    exact absurd hKept (by decide +kernel)
  · intro hKeeps
    rw [KeepsHashes] at hKeeps
    exact absurd hKeeps (by decide +kernel)

end Example

end Node

end MeshCore
