import Mathlib.Data.List.DropRight
import MeshCore.Room.Runs

/-
  Which passwords open the door. What a peer types is cut
  and trimmed before it is compared, and what it is compared
  with may come from a config that does neither.

  Key definitions include:
    * `Room.Typeable`
    * `Room.Offers`, `Room.Opens`

  Key facts include:
    * `Room.trimmed_append_blanks`, `Room.trimmed_eq_self_iff`
    * `Room.passwordOf_spelt_iff`
    * `Room.password_opens_iff_typeable`
    * `Room.setPassword_typeable`
-/

namespace MeshCore

namespace Room

variable {η : Type}

------------------------------------------------------------
-- Trimming
------------------------------------------------------------

/- Blanks in front go first, and then those behind. -/
theorem trimmed_eq (text : Bytes) :
    trimmed text =
      (text.dropWhile isBlank).rdropWhile isBlank :=
  rfl

/- Blanks behind a text are trimmed off. -/
theorem trimmed_append_blanks
    (text : Bytes)
    {tail : Bytes}
    (hBlank : ∀ b ∈ tail, isBlank b = true) :
    trimmed (text ++ tail) = trimmed text := by
  rw [trimmed_eq, trimmed_eq, List.dropWhile_append]
  split
  next hAll =>
    rw [List.isEmpty_iff] at hAll
    rw [hAll, List.dropWhile_eq_nil_iff.mpr hBlank]
  next =>
    have hBehind : ∀ b ∈ tail.reverse, isBlank b = true :=
      fun b hb => hBlank b (List.mem_reverse.mp hb)
    rw [List.rdropWhile, List.reverse_append,
      List.dropWhile_append_of_pos hBehind, List.rdropWhile]

theorem length_trimmed_le (text : Bytes) :
    (trimmed text).length ≤
      (text.dropWhile isBlank).length :=
  (List.rdropWhile_prefix _ _).length_le

/- What is not blank at either end is trimmed to itself. -/
theorem trimmed_eq_self_iff {text : Bytes} :
    trimmed text = text ↔
      (∀ b ∈ text.head?, isBlank b = false) ∧
        ∀ b ∈ text.getLast?, isBlank b = false := by
  have hFront :
      text.dropWhile isBlank = text ↔
        ∀ b ∈ text.head?, isBlank b = false := by
    cases text with
    | nil => simp
    | cons b rest =>
        rw [List.dropWhile_eq_self_iff]
        simp
  have hBack :
      text.rdropWhile isBlank = text ↔
        ∀ b ∈ text.getLast?, isBlank b = false := by
    rw [List.rdropWhile_eq_self_iff]
    cases text using List.reverseRecOn with
    | nil => simp
    | append_singleton rest b => simp
  rw [← hFront, ← hBack, trimmed_eq]
  constructor
  · intro hSame
    -- neither of the two steps can have made it shorter
    have hBare : text.dropWhile isBlank = text := by
      apply (List.dropWhile_suffix isBlank).eq_of_length_le
      conv_lhs => rw [← hSame]
      exact (List.rdropWhile_prefix _ _).length_le
    rw [hBare] at hSame
    exact ⟨hBare, hSame⟩
  · rintro ⟨hBare, hSame⟩
    rw [hBare, hSame]

/- What was trimmed has no blank at either end. -/
theorem trimmed_trimmed (text : Bytes) :
    trimmed (trimmed text) = trimmed text := by
  have hFront :
      (trimmed text).dropWhile isBlank = trimmed text := by
    have hBare :=
      List.dropWhile_idempotent isBlank text
    have hStart :
        trimmed text <+: text.dropWhile isBlank :=
      List.rdropWhile_prefix _ _
    generalize text.dropWhile isBlank = bare at hBare hStart
    rcases hStart with ⟨rest, rfl⟩
    cases hTrimmed : trimmed text with
    | nil => rfl
    | cons b more =>
        rw [hTrimmed, List.cons_append,
          List.dropWhile_eq_self_iff] at hBare
        have hFirst := hBare (Nat.succ_pos _)
        exact List.dropWhile_cons_of_neg hFirst
  rw [trimmed_eq, hFront, trimmed_eq,
    List.rdropWhile_idempotent]

------------------------------------------------------------
-- Passwords That Can Be Typed
------------------------------------------------------------

/- No longer than is read, and no blank at either end. -/
structure Typeable (password : Bytes) : Prop where
  short : password.length ≤ maxPassword
  front : ∀ b ∈ password.head?, isBlank b = false
  back : ∀ b ∈ password.getLast?, isBlank b = false

theorem typeable_iff {password : Bytes} :
    Typeable password ↔
      password.length ≤ maxPassword ∧
        trimmed password = password := by
  rw [trimmed_eq_self_iff]
  constructor
  · rintro ⟨hShort, hFront, hBack⟩
    exact ⟨hShort, hFront, hBack⟩
  · rintro ⟨hShort, hFront, hBack⟩
    exact ⟨hShort, hFront, hBack⟩

/- A password with blanks behind it is read as it is typed. -/
theorem passwordOf_spelt_iff
    {start password tail : Bytes}
    (hStart : start.length = loginRequestPrefixSize)
    (hBlank : ∀ b ∈ tail, isBlank b = true) :
    passwordOf (start ++ password ++ tail) = password ↔
      Typeable password := by
  have hTyped :
      (start ++ password ++ tail).drop
          loginRequestPrefixSize =
        password ++ tail := by
    rw [List.append_assoc, ← hStart, List.drop_left]
  rw [passwordOf, hTyped, typeable_iff]
  constructor
  · intro hRead
    constructor
    · rw [← hRead]
      calc (trimmed ((password ++ tail).take
              maxPassword)).length
          ≤ ((password ++ tail).take maxPassword).length :=
            (length_trimmed_le _).trans
              (List.dropWhile_suffix _).length_le
        _ ≤ maxPassword := List.length_take_le _ _
    · rw [← hRead, trimmed_trimmed]
  · rintro ⟨hShort, hBare⟩
    rw [List.take_append, List.take_of_length_le hShort,
      trimmed_append_blanks, hBare]
    exact fun b hb => hBlank b (List.mem_of_mem_take hb)

------------------------------------------------------------
-- The Door
------------------------------------------------------------

/-
  A key that is not made to wait logs in, later than it did
  before, with a password that is in force and blanks behind
  it.
-/
structure Offers
    (room : Room η)
    (pk : PublicKey)
    (password plain : Bytes) :
    Prop where
  inForce :
    password = room.config.adminPassword ∨
      password = room.config.guestPassword
  some : password ≠ []
  free : (room.lockedOut pk).1 = false
  newer : room.replays pk (readUint32 plain 0) = false
  spelt :
    ∃ start tail,
      start.length = loginRequestPrefixSize ∧
        (∀ b ∈ tail, isBlank b = true) ∧
        plain = start ++ password ++ tail

/- The key is let in with the rights of the password. -/
def Opens
    (room : Room η)
    (pk : PublicKey)
    (password plain : Bytes) :
    Prop :=
  ∃ row room',
    room.login pk plain = (some row, room') ∧
      (room'.client row).pk = pk ∧
      (room'.client row).access =
        if password = room.config.adminPassword then .admin
        else .guest

/- Where a key that is let in finds itself. -/
theorem granted_own
    (room : Room η)
    (pk : PublicKey)
    (access : Access)
    (timestamp : UInt32) :
    ∃ row client,
      (room.granted pk access timestamp).1 = some row ∧
        (room.granted pk access timestamp).2.clients[row]? =
          some client ∧
        client.pk = pk ∧ client.access = access := by
  unfold granted
  rcases room.enterClient_cases pk with
    ⟨row, hRow, hEnter⟩ | ⟨-, kept, -, hEnter⟩
  · rcases Table.getElem?_of_findIdx? hRow with
      ⟨client, hHere, hKey⟩
    rw [hEnter]
    refine ⟨row,
      { client with
        access := access
        lastLogin := timestamp },
      rfl, ?_, eq_of_beq hKey, rfl⟩
    rw [modifyClient, List.getElem?_modify_eq, hHere]
    rfl
  · rw [hEnter]
    simp only [modifyClient, Table.modify_length_append]
    exact ⟨kept.length, _, rfl, List.getElem?_concat_length,
      rfl, rfl⟩

/- What a login that is looked at comes to. -/
theorem login_rights
    {room : Room η} {pk : PublicKey} {plain : Bytes}
    (hLong : loginRequestPrefixSize ≤ plain.length)
    (hFree : (room.lockedOut pk).1 = false)
    (hNewer :
      room.replays pk (readUint32 plain 0) = false) :
    (room.accessFor (passwordOf plain) = .none ∧
        (room.login pk plain).1 = none) ∨
      ∃ row room',
        room.login pk plain = (some row, room') ∧
          (room'.client row).pk = pk ∧
          (room'.client row).access =
            room.rightsFor (passwordOf plain) := by
  rw [login, if_neg (Nat.not_lt.mpr hLong)]
  dsimp only
  rw [← passwordOf, authenticate_eq,
    if_neg (Bool.eq_false_iff.mp hNewer),
    if_neg (Bool.eq_false_iff.mp hFree)]
  by_cases hRefused :
      room.accessFor (passwordOf plain) = .none ∧
        ¬ room.config.allowAnonymousRead
  · rw [if_pos hRefused]
    exact .inl ⟨hRefused.1, rfl⟩
  · rw [if_neg hRefused, ← rightsFor]
    right
    rcases granted_own (room.noted pk (passwordOf plain)) pk
        (room.rightsFor (passwordOf plain))
        (readUint32 plain 0) with
      ⟨row, client, hRow, hHere, hKey, hAccess⟩
    generalize
      (room.noted pk (passwordOf plain)).granted pk
        (room.rightsFor (passwordOf plain))
        (readUint32 plain 0) = result at hRow hHere ⊢
    rcases result with ⟨_, left⟩
    cases hRow
    refine ⟨row, _, rfl, ?_⟩
    simp only [Room.client, modifyClient,
      List.getD_eq_getElem?_getD, List.getElem?_modify_eq]
    rw [hHere]
    exact ⟨hKey, hAccess⟩

/- What a password comes to, by what it is compared with. -/
theorem rightsFor_eq (room : Room η) (password : Bytes) :
    room.rightsFor password =
      if passwordMatches password
          room.config.adminPassword then
        .admin
      else if passwordMatches password
          room.config.guestPassword then
        .guest
      else .readOnly := by
  unfold rightsFor accessFor
  split_ifs <;> simp_all

theorem passwordMatches_iff {candidate expected : Bytes} :
    passwordMatches candidate expected = true ↔
      expected ≠ [] ∧ candidate = expected := by
  simp [passwordMatches]

/- Rights above those of a stranger tell the password. -/
theorem eq_of_rights
    {room : Room η} {password typed : Bytes}
    (hInForce :
      password = room.config.adminPassword ∨
        password = room.config.guestPassword)
    (hRights :
      room.rightsFor typed =
        if password = room.config.adminPassword then .admin
        else .guest) :
    typed = password := by
  rw [rightsFor_eq] at hRights
  by_cases hAdmin : password = room.config.adminPassword
  · rw [if_pos hAdmin] at hRights
    split_ifs at hRights with hMatches
    rw [(passwordMatches_iff.mp hMatches).2, hAdmin]
  · rw [if_neg hAdmin] at hRights
    split_ifs at hRights with hOther hMatches
    rw [(passwordMatches_iff.mp hMatches).2,
      hInForce.resolve_left hAdmin]

/- The rights of a password that is in force. -/
theorem rightsFor_self
    {room : Room η} {password : Bytes}
    (hInForce :
      password = room.config.adminPassword ∨
        password = room.config.guestPassword)
    (hSome : password ≠ []) :
    room.rightsFor password =
      if password = room.config.adminPassword then .admin
      else .guest := by
  rw [rightsFor_eq]
  by_cases hAdmin : password = room.config.adminPassword
  · rw [if_pos hAdmin,
      if_pos (passwordMatches_iff.mpr
        ⟨hAdmin ▸ hSome, hAdmin⟩)]
  · have hGuest := hInForce.resolve_left hAdmin
    rw [if_neg hAdmin,
      if_neg fun hMatches =>
        hAdmin (passwordMatches_iff.mp hMatches).2,
      if_pos (passwordMatches_iff.mpr
        ⟨hGuest ▸ hSome, hGuest⟩)]

/-
  A password in force opens the door, with the rights that
  it is to come with, if and only if it can be typed.
-/
theorem password_opens_iff_typeable
    {room : Room η} {pk : PublicKey}
    {password plain : Bytes}
    (hOffers : room.Offers pk password plain) :
    room.Opens pk password plain ↔ Typeable password := by
  rcases hOffers.spelt with
    ⟨start, tail, hStart, hBlank, hSpelt⟩
  have hRead :
      passwordOf plain = password ↔ Typeable password := by
    rw [hSpelt]
    exact passwordOf_spelt_iff hStart hBlank
  have hLong : loginRequestPrefixSize ≤ plain.length := by
    rw [hSpelt, List.length_append, List.length_append]
    omega
  have hLogin :=
    login_rights hLong hOffers.free hOffers.newer
  rw [← hRead]
  constructor
  · rintro ⟨row, room', hTaken, -, hAccess⟩
    rw [hTaken] at hLogin
    rcases hLogin with ⟨-, hNone⟩ | ⟨_, _, hSame, -, hRights⟩
    · cases hNone
    · cases hSame
      rw [hRights] at hAccess
      exact eq_of_rights hOffers.inForce hAccess
  · intro hTyped
    have hRights :=
      rightsFor_self hOffers.inForce hOffers.some
    rw [hTyped] at hLogin
    rcases hLogin with
      ⟨hNone, -⟩ | ⟨row, room', hTaken, hKey, hAccess⟩
    · rw [rightsFor, if_pos hNone] at hRights
      split_ifs at hRights
    · exact ⟨row, room', hTaken, hKey, hAccess.trans hRights⟩

------------------------------------------------------------
-- Passwords That Are Set
------------------------------------------------------------

/- A password that was in force, or one that can be typed. -/
def OldOrTypeable (before after : Bytes) : Prop :=
  after = before ∨ Typeable after

/- The set command trims a password, and refuses a long one. -/
theorem setPassword_typeable
    (room : Room η)
    (dest : PublicKey)
    (forAdmin : Bool)
    (rest : Bytes) :
    (room.setPassword dest forAdmin (trimmed rest)).Ensures
      SenderOp.Answers
      fun room' =>
        OldOrTypeable room.config.adminPassword
            room'.config.adminPassword ∧
          OldOrTypeable room.config.guestPassword
            room'.config.guestPassword := by
  unfold setPassword
  refine Program.ensures_ite (fun _ => ?_) fun hShort => ?_
  · exact reply_ensures _ _ ⟨.inl rfl, .inl rfl⟩
  · have hTypeable : Typeable (trimmed rest) :=
      typeable_iff.mpr
        ⟨Nat.le_of_not_lt hShort, trimmed_trimmed rest⟩
    rcases saveSetting_eq room
        (if forAdmin then ascii "room.admin_password"
          else ascii "room.guest_password")
        (trimmed rest) with
      ⟨host, hHost⟩
    simp only [hHost]
    refine Program.ensures_ite (fun _ => ?_) fun _ => ?_
    · cases forAdmin with
      | true =>
          exact reply_ensures _ _
            ⟨.inr hTypeable, .inl rfl⟩
      | false =>
          exact reply_ensures _ _
            ⟨.inl rfl, .inr hTypeable⟩
    · exact reply_ensures _ _ ⟨.inl rfl, .inl rfl⟩

section Example

open Sample

/- The guest's password, padded by the client. -/
def paddedLogin : Bytes :=
  writeUint32 7 ++ writeUint32 0 ++ ascii "g" ++ [0x20, 0, 0]

theorem padded_password_opens :
    quietRoom.Opens (key 1) (ascii "g") paddedLogin := by
  have hOffers :
      quietRoom.Offers (key 1) (ascii "g") paddedLogin :=
    { inForce := .inr rfl
      some := by decide
      free := rfl
      newer := rfl
      spelt :=
        ⟨writeUint32 7 ++ writeUint32 0, [0x20, 0, 0],
          by decide +kernel, by decide +kernel, rfl⟩ }
  have hTypeable : Typeable (ascii "g") :=
    ⟨by decide, by decide +kernel, by decide +kernel⟩
  exact (password_opens_iff_typeable hOffers).mpr hTypeable

end Example

end Room

end MeshCore
