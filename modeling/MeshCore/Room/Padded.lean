import Mathlib.Data.List.GetD
import MeshCore.Crypto.Padding
import MeshCore.Room.Passwords
import MeshCore.Routing.Router

/-
  What a peer's way of padding does to what it sent. A
  handler is unharmed by it where the plaintext has no tail
  that looks like padding, or where nothing that the handler
  looks at is in that tail.

  Key definitions include:
    * `Unharmed`
    * `LoginSurvives`, `RequestSurvives`

  Key facts include:
    * `decoder_unharmed_iff`
    * `Room.login_unharmed_iff`
    * `Room.request_unharmed_iff`
    * `zero_padding_is_harmless_iff`
-/

namespace MeshCore

------------------------------------------------------------
-- Handlers
------------------------------------------------------------

section Handlers

variable [CryptoCore]

/- What comes out of what a peer filled up with NULs. -/
def openedFrom
    (secret : SharedSecret)
    (plain : Bytes) :
    Option Bytes :=
  let sealing := zeroSealed secret plain
  openCiphertext secret sealing.mac sealing.ciphertext
    sealing.ciphertext.length

/- A handler makes of it what it makes of the plaintext. -/
def Unharmed
    {α : Type}
    (handler : Bytes → α)
    (plain : Bytes) :
    Prop :=
  ∀ secret,
    (openedFrom secret plain).map handler =
      some (handler plain)

theorem unharmed_iff
    {α : Type} {handler : Bytes → α} {plain : Bytes}
    (hCipher : Deciphers)
    (hSome : plain ≠ []) :
    Unharmed handler plain ↔
      handler (kept plain) = handler plain := by
  have hOpened :
      ∀ secret, openedFrom secret plain = some (kept plain) :=
    fun secret =>
      openCiphertext_zeroSealed hCipher secret hSome
  constructor
  · intro hUnharmed
    have hHere := hUnharmed (Vector.replicate _ 0)
    rw [hOpened] at hHere
    exact Option.some.inj hHere
  · intro hSame secret
    rw [hOpened, Option.map_some, hSame]

/- A decoder that keeps every byte misses every byte. -/
theorem decoder_unharmed_iff
    {α : Type} {decode : Bytes → Option α} {plain : Bytes}
    (hCipher : Deciphers)
    (hLength :
      ∀ b b' m,
        decode b = some m →
          decode b' = some m → b.length = b'.length)
    (hNothing : decode [] = none)
    (hSome : (decode plain).isSome) :
    Unharmed decode plain ↔ lookalike plain = 0 := by
  have hNotEmpty : plain ≠ [] := by
    rintro rfl
    rw [hNothing] at hSome
    contradiction
  have hCut := lookalike_le plain
  rw [unharmed_iff hCipher hNotEmpty]
  constructor
  · intro hSame
    rcases Option.isSome_iff_exists.mp hSome with ⟨m, hm⟩
    have hEqual := hLength _ _ m (hSame.trans hm) hm
    rw [length_kept] at hEqual
    have hPos := List.length_pos_iff.mpr hNotEmpty
    omega
  · intro hNone
    rw [kept, hNone, Nat.sub_zero, List.take_length]

end Handlers

theorem length_of_decodeText
    {plain : Bytes} {m : TextMsg}
    (hText : decodeText plain = some m) :
    plain.length = textMsgPrefixSize + m.message.length := by
  unfold decodeText at hText
  split_ifs at hText with hShort
  rw [← Option.some.inj hText, List.length_drop]
  omega

theorem length_of_decodePath
    {plain : Bytes} {p : PathReturn}
    (hPath : decodePath plain = some p) :
    plain.length =
      packetPathLengthSize + p.path.length +
        pathExtraTypeSize + p.extra.length := by
  unfold decodePath at hPath
  split at hPath
  · contradiction
  next size rest =>
    simp only at hPath
    split_ifs at hPath with hLong hShort
    rw [← Option.some.inj hPath]
    simp only [subspan, List.length_take, List.length_drop]
    omega

------------------------------------------------------------
-- What Is Read Of A Plaintext
------------------------------------------------------------

/- The first bytes of both are read the same. -/
def SameReads (n : Nat) (b b' : Bytes) : Prop :=
  ∀ i < n, b.getD i 0 = b'.getD i 0

theorem SameReads.readUint32_eq
    {n offset : Nat} {b b' : Bytes}
    (hReads : SameReads n b b')
    (hInside : offset + 4 ≤ n) :
    readUint32 b offset = readUint32 b' offset := by
  unfold readUint32
  rw [hReads offset (by omega),
    hReads (offset + 1) (by omega),
    hReads (offset + 2) (by omega),
    hReads (offset + 3) (by omega)]

theorem SameReads.copyInto_eq
    {n : Nat} {b b' : Bytes}
    (hReads : SameReads n b b') :
    copyInto n b = copyInto n b' := by
  have hByte :
      ∀ (b : Bytes) i (hi : i < n),
        (copyInto n b)[i] = b.getD i 0 := by
    intro b i hi
    have hRead :
        (copyInto n b)[i] =
          (b ++ List.replicate n 0).getD i 0 := by
      rw [List.getD_eq_getElem _ _ (by simp; omega)]
      simp [copyInto]
    rw [hRead]
    by_cases hInside : i < b.length
    · exact List.getD_append _ _ _ _ hInside
    · rw [List.getD_append_right _ _ _ _ (by omega),
        List.getD_eq_getElem?_getD,
        List.getElem?_getD_replicate_default_eq,
        List.getD_eq_default _ _ (by omega)]
  apply Vector.ext
  intro i hi
  rw [hByte, hByte, hReads i hi]

/- NULs are read where nothing is, too. -/
theorem sameReads_kept
    {n : Nat} {plain : Bytes}
    (hTail :
      lookalike plain = 0 ∨
        lastByte plain = 0 ∨
        n + lookalike plain ≤ plain.length) :
    SameReads n (kept plain) plain := by
  intro i hi
  have hLength := length_kept plain
  conv_rhs => rw [← kept_append plain]
  by_cases hInside : i < (kept plain).length
  · rw [List.getD_append _ _ _ _ hInside]
  · rw [List.getD_eq_default _ _ (by omega),
      List.getD_append_right _ _ _ _ (by omega)]
    rcases hTail with hNone | hNul | hShort
    · rw [hNone]
      rfl
    · rw [hNul, List.getD_eq_getElem?_getD,
        List.getElem?_getD_replicate_default_eq]
    · omega

------------------------------------------------------------
-- Logins
------------------------------------------------------------

namespace Room

/- What is no blank is not, and neither is what precedes. -/
theorem trimmed_append_other
    (text : Bytes)
    {n : Nat} {b : UInt8}
    (hOther : isBlank b = false)
    (hSome : n ≠ 0) :
    trimmed (text ++ List.replicate n b) =
      text.dropWhile isBlank ++ List.replicate n b := by
  have hStops :
      ∀ rest,
        (List.replicate n b ++ rest).dropWhile isBlank =
          List.replicate n b ++ rest := by
    intro rest
    cases n with
    | zero => contradiction
    | succ n =>
        rw [List.replicate_succ, List.cons_append,
          List.dropWhile_cons_of_neg (by simp [hOther])]
  have hFront :
      (text ++ List.replicate n b).dropWhile isBlank =
        text.dropWhile isBlank ++ List.replicate n b := by
    have hAlone := hStops []
    rw [List.append_nil] at hAlone
    rw [List.dropWhile_append, hAlone]
    by_cases hAll : text.dropWhile isBlank = []
    · rw [hAll, List.isEmpty_nil, if_pos rfl,
        List.nil_append]
    · rw [if_neg (by simpa using hAll)]
  rw [trimmed, hFront, List.reverse_append,
    List.reverse_replicate, hStops, ← List.reverse_replicate,
    ← List.reverse_append, List.reverse_reverse,
    List.reverse_replicate]

/-
  A login has all its numbers in front of the tail, and of
  its password the tail holds blanks at most.
-/
def LoginSurvives (plain : Bytes) : Prop :=
  loginRequestPrefixSize + lookalike plain ≤ plain.length ∧
    (lookalike plain = 0 ∨
      isBlank (lastByte plain) = true ∨
      loginRequestPrefixSize + maxPassword +
          lookalike plain ≤
        plain.length)

instance : DecidablePred LoginSurvives := fun _ =>
  inferInstanceAs (Decidable (_ ∧ _))

/- The part of the tail that the password reaches into. -/
theorem password_parts
    {plain : Bytes}
    (hShort :
      loginRequestPrefixSize + lookalike plain ≤
        plain.length) :
    (plain.drop loginRequestPrefixSize).take maxPassword =
      ((kept plain).drop loginRequestPrefixSize).take
          maxPassword ++
        List.replicate
          (min
            (maxPassword -
              ((kept plain).length - loginRequestPrefixSize))
            (lookalike plain))
          (lastByte plain) := by
  have hLength := length_kept plain
  conv_lhs => rw [← kept_append plain]
  rw [List.drop_append_of_le_length (by omega),
    List.take_append, List.length_drop, List.take_replicate]

theorem passwordOf_kept_iff
    {plain : Bytes}
    (hShort :
      loginRequestPrefixSize + lookalike plain ≤
        plain.length) :
    passwordOf (kept plain) = passwordOf plain ↔
      LoginSurvives plain := by
  have hLength := length_kept plain
  unfold passwordOf
  rw [password_parts hShort]
  generalize
    ((kept plain).drop loginRequestPrefixSize).take
      maxPassword = text
  by_cases hBlank : isBlank (lastByte plain) = true
  · rw [trimmed_append_blanks text
      fun b hb => List.eq_of_mem_replicate hb ▸ hBlank]
    exact iff_of_true rfl ⟨hShort, .inr (.inl hBlank)⟩
  · by_cases hOutside :
        min
            (maxPassword -
              ((kept plain).length - loginRequestPrefixSize))
            (lookalike plain) =
          0
    · rw [hOutside, List.replicate_zero, List.append_nil]
      refine iff_of_true rfl ⟨hShort, ?_⟩
      omega
    · rw [Bool.not_eq_true] at hBlank
      rw [trimmed_append_other text hBlank hOutside]
      constructor
      · intro hSame
        have hLess := length_trimmed_le text
        rw [hSame, List.length_append,
          List.length_replicate] at hLess
        omega
      · rintro ⟨-, hNone | hThere | hBehind⟩
        · omega
        · rw [hBlank] at hThere
          contradiction
        · omega

variable {η : Type}

/- A login is its numbers and its password. -/
theorem login_of_same
    {plain plain' : Bytes}
    (hLong : loginRequestPrefixSize ≤ plain.length)
    (hLong' : loginRequestPrefixSize ≤ plain'.length)
    (hReads : SameReads loginRequestPrefixSize plain plain')
    (hPassword : passwordOf plain = passwordOf plain')
    (room : Room η)
    (pk : PublicKey) :
    room.login pk plain = room.login pk plain' := by
  have hTime : readUint32 plain 0 = readUint32 plain' 0 :=
    hReads.readUint32_eq (by decide)
  have hSince : readUint32 plain 4 = readUint32 plain' 4 :=
    hReads.readUint32_eq (by decide)
  unfold login
  rw [if_neg (Nat.not_lt.mpr hLong),
    if_neg (Nat.not_lt.mpr hLong'), hTime, hSince,
    ← passwordOf, ← passwordOf, hPassword]

/- A new key meets neither a lockout nor an older login. -/
theorem login_create
    (config : RoomConfig η)
    (host : η)
    (pk : PublicKey)
    {plain : Bytes}
    (hLong : loginRequestPrefixSize ≤ plain.length) :
    ((create config host).login pk plain).1.isSome = true ↔
      (create config host).accessFor (passwordOf plain) ≠
          .none ∨
        config.allowAnonymousRead = true := by
  have hSome :
      ((create config host).login pk plain).1.isSome =
        ((create config host).authenticate pk
          (passwordOf plain)
          (readUint32 plain 0)).1.isSome := by
    unfold login
    rw [if_neg (Nat.not_lt.mpr hLong), ← passwordOf]
    simp only
    generalize (create config host).authenticate pk _ _ =
      result
    rcases result with ⟨_ | row, after⟩ <;> rfl
  have hFresh :
      (create config host).replays pk
          (readUint32 plain 0) = false :=
    rfl
  have hUnlocked :
      ((create config host).lockedOut pk).1 = false :=
    rfl
  have hConfig :
      (create config host).config = config := rfl
  rw [hSome, authenticate_eq, hFresh, hUnlocked, hConfig]
  by_cases hIn :
      (create config host).accessFor (passwordOf plain) =
          .none ∧
        ¬ config.allowAnonymousRead = true
  · rw [if_neg Bool.false_ne_true, if_neg Bool.false_ne_true,
      if_pos hIn]
    simp [hIn]
  · rw [if_neg Bool.false_ne_true, if_neg Bool.false_ne_true,
      if_neg hIn]
    simp only [granted, Option.isSome_some, true_iff]
    tauto

/- What is answered and what is not are told apart. -/
theorem login_isSome_of_onAnon
    {room : Room η} {pk : PublicKey} {plain plain' : Bytes}
    (hSame : room.onAnon pk plain = room.onAnon pk plain') :
    (room.login pk plain).1.isSome =
      (room.login pk plain').1.isSome := by
  unfold onAnon at hSame
  generalize room.login pk plain = here at hSame ⊢
  generalize room.login pk plain' = there at hSame ⊢
  rcases here with ⟨_ | row, after⟩ <;>
    rcases there with ⟨_ | row', after'⟩
  · rfl
  · contradiction
  · contradiction
  · rfl

theorem login_of_short
    {room : Room η} {pk : PublicKey} {plain : Bytes}
    (hShort : plain.length < loginRequestPrefixSize) :
    room.login pk plain = (none, room) :=
  if_pos hShort

/- A room that only a password opens tells two apart. -/
theorem accessFor_guarded
    (host : η)
    {expected : Bytes}
    (hSome : expected ≠ [])
    (password : Bytes) :
    (create { adminPassword := expected } host).accessFor
          password ≠
        .none ↔
      password = expected := by
  unfold accessFor passwordMatches create
  by_cases hSame : password = expected <;>
    simp [hSame, hSome]

/-
  A login is the same however it was padded, in every room,
  exactly if it survives.
-/
theorem login_unharmed_iff
    [CryptoCore]
    (hCipher : Deciphers)
    (host : η)
    {plain : Bytes}
    (hLong : loginRequestPrefixSize ≤ plain.length) :
    (∀ (room : Room η) pk,
        Unharmed (room.onAnon pk) plain) ↔
      LoginSurvives plain := by
  have hNotEmpty : plain ≠ [] := by
    rintro rfl
    contradiction
  have hLength := length_kept plain
  have hCut := lookalike_le plain
  simp only [unharmed_iff hCipher hNotEmpty]
  constructor
  · intro hSame
    have hTold :
        ∀ room : Room η,
          (room.login anonymous (kept plain)).1.isSome =
            (room.login anonymous plain).1.isSome :=
      fun room => login_isSome_of_onAnon (hSame room _)
    have hStays :
        loginRequestPrefixSize + lookalike plain ≤
          plain.length := by
      by_contra hGone
      have hOpen :=
        hTold (create { allowAnonymousRead := true } host)
      rw [login_of_short (by omega),
        (login_create _ host anonymous hLong).mpr
          (.inr rfl)] at hOpen
      contradiction
    have hKeptLong :
        loginRequestPrefixSize ≤ (kept plain).length := by
      omega
    refine (passwordOf_kept_iff hStays).mp ?_
    have hIff :
        ∀ expected, expected ≠ [] →
          (passwordOf (kept plain) = expected ↔
            passwordOf plain = expected) := by
      intro expected hSome
      have hBoth :=
        hTold (create { adminPassword := expected } host)
      rw [Bool.eq_iff_iff, login_create _ _ _ hLong,
        login_create _ _ _ hKeptLong,
        accessFor_guarded host hSome,
        accessFor_guarded host hSome] at hBoth
      simpa using hBoth
    by_cases hNone : passwordOf plain = []
    · by_contra hOther
      rw [hNone] at hOther
      have hThere := (hIff _ hOther).mp rfl
      exact hOther (hThere.symm.trans hNone)
    · exact (hIff _ hNone).mpr rfl
  · intro hSurvives room pk
    have hSame :=
      login_of_same
        (by have := hSurvives.1; omega) hLong
        (sameReads_kept (.inr (.inr hSurvives.1)))
        ((passwordOf_kept_iff hSurvives.1).mpr hSurvives)
        room pk
    unfold onAnon
    rw [hSame]

------------------------------------------------------------
-- Requests
------------------------------------------------------------

/-
  A request keeps its kind and its time, unless the time is
  none; and the tail holds no part of a bookmark that comes
  with a keep-alive.
-/
def RequestSurvives (plain : Bytes) : Prop :=
  (requestPrefixSize + lookalike plain ≤ plain.length ∨
      readUint32 plain 0 = 0) ∧
    (requestTypeOf (plain.getD 4 0) = some .keepAlive →
      carriesBookmark plain = true →
        keepAliveAckBytes + lookalike plain ≤ plain.length)

instance : DecidablePred RequestSurvives := fun _ =>
  inferInstanceAs (Decidable (_ ∧ _))

/- What is read in the tail is the one byte it is made of. -/
theorem getD_of_tail
    {plain : Bytes} {i : Nat}
    (hInside : i < plain.length)
    (hTail : plain.length < i + 1 + lookalike plain) :
    plain.getD i 0 = lastByte plain := by
  have hLength := length_kept plain
  conv_lhs => rw [← kept_append plain]
  rw [List.getD_append_right _ _ _ _ (by omega),
    List.getD_replicate _ (by omega)]

theorem readUint32_pos
    {b : Bytes} {offset : Nat}
    (hTop : b.getD (offset + 3) 0 ≠ 0) :
    0 < readUint32 b offset := by
  rw [UInt32.pos_iff_ne_zero]
  intro hZero
  unfold readUint32 at hZero
  rw [UInt32.or_eq_zero_iff] at hZero
  generalize b.getD (offset + 3) 0 = top at hTop hZero
  have hNat := congrArg UInt32.toNat hZero.2
  have hByte := top.toNat_lt
  rw [UInt32.toNat_shiftLeft, UInt8.toNat_toUInt32,
    Nat.shiftLeft_eq] at hNat
  apply hTop
  apply UInt8.toNat_inj.mp
  have hShift : (24 : UInt32).toNat % 32 = 24 := rfl
  rw [hShift, UInt32.toNat_zero] at hNat
  rw [UInt8.toNat_zero]
  omega

/- No request has its kind in a tail. -/
theorem requestType_of_tail
    {plain : Bytes}
    (hLong : requestPrefixSize ≤ plain.length)
    (hTail :
      plain.length < requestPrefixSize + lookalike plain) :
    requestTypeOf (plain.getD 4 0) = none := by
  unfold requestPrefixSize at hLong hTail
  rw [getD_of_tail (by omega) (by omega)]
  rcases lookalike_cases plain with
    hNone | hNul | ⟨hByte, hBlock, hWhole⟩
  · omega
  · rw [hNul]
    rfl
  · unfold packetCipherBlockSize at hWhole
    have hMany : 11 < (lastByte plain).toNat := by omega
    have hOther :
        ∀ kind : UInt8, kind.toNat ≤ 11 →
          lastByte plain ≠ kind := by
      rintro kind hFew rfl
      omega
    unfold requestTypeOf
    rw [if_neg (hOther _ (by decide)),
      if_neg (hOther _ (by decide))]

/- Without a bookmark, what is acknowledged stays the same. -/
theorem sameReads_of_noBookmark
    {plain : Bytes}
    (hNone : carriesBookmark plain = false) :
    SameReads keepAliveAckBytes (kept plain) plain := by
  apply sameReads_kept
  rcases lookalike_cases plain with
    hNo | hNul | ⟨hByte, hBlock, hWhole⟩
  · exact .inl hNo
  · exact .inr (.inl hNul)
  · by_contra hTail
    rw [not_or, not_or] at hTail
    rcases hTail with ⟨hSome, hOther, hCut⟩
    have hLess := lookalike_le plain
    unfold packetCipherBlockSize at hWhole
    unfold keepAliveAckBytes at hCut
    have hLast :
        plain.getD (requestPrefixSize + 3) 0 =
          lastByte plain :=
      getD_of_tail
        (by unfold requestPrefixSize; omega)
        (by unfold requestPrefixSize; omega)
    have hSince : 0 < readUint32 plain requestPrefixSize :=
      readUint32_pos (by rw [hLast]; exact hOther)
    have hCarries : carriesBookmark plain = true := by
      simp only [carriesBookmark, keepAliveAckBytes, hSince,
        and_true, decide_eq_true_eq]
      omega
    rw [hNone] at hCarries
    contradiction

variable [CryptoCore]

/- A row that is changed into itself. -/
omit [CryptoCore] in
theorem modifyClient_same
    {room : Room η} {row : Nat} {f : Client → Client}
    (hSame : f (room.client row) = room.client row) :
    room.modifyClient row f = room := by
  have hRows : room.clients.modify row f = room.clients := by
    apply List.ext_getElem (List.length_modify _ _ _)
    intro i hi hi'
    rw [List.getElem_modify]
    split
    next hRow =>
      have hClient : room.client row = room.clients[i] := by
        rw [client, hRow, List.getD_eq_getElem _ _ hi']
      rw [← hClient, hSame]
    next => rfl
  rw [modifyClient, hRows]

/- What survives is answered the same. -/
theorem handleRequest_kept
    {plain : Bytes}
    (hLong : requestPrefixSize ≤ plain.length)
    (hSurvives : RequestSurvives plain)
    (room : Room η)
    (row : Nat) :
    room.handleRequest row (kept plain) =
      room.handleRequest row plain := by
  have hLength := length_kept plain
  rcases hSurvives with ⟨hFront, hBookmark⟩
  by_cases hStays :
      requestPrefixSize + lookalike plain ≤ plain.length
  · have hReads :
        SameReads requestPrefixSize (kept plain) plain :=
      sameReads_kept (.inr (.inr hStays))
    have hTime :
        readUint32 (kept plain) 0 = readUint32 plain 0 :=
      hReads.readUint32_eq (by decide)
    have hType :
        (kept plain).getD 4 0 = plain.getD 4 0 :=
      hReads 4 (by decide)
    have hKeepAlive :
        requestTypeOf (plain.getD 4 0) = some .keepAlive →
          SameReads keepAliveAckBytes (kept plain) plain ∧
            carriesBookmark (kept plain) =
              carriesBookmark plain := by
      intro hKind
      cases hCarries : carriesBookmark plain with
      | true =>
          have hWhole := hBookmark hKind hCarries
          have hSame :
              SameReads keepAliveAckBytes (kept plain)
                plain :=
            sameReads_kept (.inr (.inr hWhole))
          refine ⟨hSame, ?_⟩
          rw [← hCarries]
          unfold carriesBookmark
          rw [hSame.readUint32_eq (by decide)]
          have hThere : keepAliveAckBytes ≤ plain.length := by
            omega
          have hHere :
              keepAliveAckBytes ≤ (kept plain).length := by
            omega
          simp only [hThere, hHere]
      | false =>
          have hSame := sameReads_of_noBookmark hCarries
          refine ⟨hSame, ?_⟩
          simp only [carriesBookmark, decide_eq_false_iff_not,
            not_and] at hCarries ⊢
          rw [hSame.readUint32_eq (by decide)]
          exact fun hHere => hCarries (by omega)
    have hKeptLong :
        requestPrefixSize ≤ (kept plain).length := by
      omega
    unfold handleRequest
    rw [if_neg (Nat.not_lt.mpr hKeptLong),
      if_neg (Nat.not_lt.mpr hLong), hTime, hType]
    cases hKind : requestTypeOf (plain.getD 4 0) with
    | none => rfl
    | some type =>
        cases type with
        | status => rfl
        | keepAlive =>
            rcases hKeepAlive hKind with ⟨hSame, hCarries⟩
            have hBytes :
                keepAliveBytes (kept plain) =
                  keepAliveBytes plain := by
              rw [keepAliveBytes, hSame.copyInto_eq]
              rfl
            have hMoved :
                ∀ r : Room η,
                  r.moveBookmark row (kept plain) =
                    r.moveBookmark row plain := by
              intro r
              unfold moveBookmark
              rw [hCarries,
                hSame.readUint32_eq (by decide)]
            simp only [sendKeepAliveAck, hBytes, hMoved]
  · have hTime := hFront.resolve_left hStays
    have hKind := requestType_of_tail hLong (by omega)
    have hPos : 0 < requestPrefixSize := by decide
    have hShort :
        (kept plain).length < requestPrefixSize := by
      omega
    have hSame :
        ¬ 0 < (room.client row).lastRequest →
          (room.modifyClient row fun client =>
              { client with lastRequest := 0 }) =
            room := by
      intro hNever
      rw [UInt32.pos_iff_ne_zero, not_not] at hNever
      apply modifyClient_same
      rw [← hNever]
    unfold handleRequest
    rw [if_pos hShort, if_neg (Nat.not_lt.mpr hLong), hTime,
      hKind]
    simp only
    split
    · rfl
    next hOld =>
      rw [hSame hOld]
      split <;> rfl

/- One client who may do this, and nothing on the board. -/
def withClient (host : η) (client : Client) : Room η :=
  { create {} host with clients := [client] }

/- A request that nobody may make notes its time alone. -/
theorem handleRequest_unread
    (host : η)
    (pk : PublicKey)
    {plain : Bytes}
    (hLong : requestPrefixSize ≤ plain.length) :
    (withClient host { pk := pk }).handleRequest 0 plain =
      return (false,
        withClient host
          { pk := pk, lastRequest := readUint32 plain 0 }) := by
  have hNew :
      ¬ readUint32 plain 0 <
          ((withClient host { pk := pk }).client
            0).lastRequest :=
    UInt32.not_lt_zero
  unfold handleRequest
  rw [if_neg (Nat.not_lt.mpr hLong)]
  simp only
  rw [if_neg hNew]
  rfl

/- A client who may read, and has read one post. -/
def reader (pk : PublicKey) : Client :=
  { pk := pk
    access := .readOnly
    syncSeq := 1 }

/- What a keep-alive leaves of the bookmark of a reader. -/
theorem handleRequest_bookmark
    (host : η)
    (pk : PublicKey)
    {plain : Bytes}
    (hLong : requestPrefixSize ≤ plain.length)
    (hKind :
      requestTypeOf (plain.getD 4 0) = some .keepAlive)
    (r : Router) :
    ((((withClient host (reader pk)).handleRequest 0
            plain).run Router.sender r).1.2.client
          0).syncSeq =
      if carriesBookmark plain then 0 else 1 := by
  have hNew :
      ¬ readUint32 plain 0 <
          ((withClient host (reader pk)).client
            0).lastRequest :=
    UInt32.not_lt_zero
  unfold handleRequest
  rw [if_neg (Nat.not_lt.mpr hLong)]
  simp only
  rw [if_neg hNew, hKind]
  unfold moveBookmark
  cases carriesBookmark plain <;> rfl

/-
  A request is the same however it was padded, in every
  room, exactly if it survives.
-/
theorem request_unharmed_iff
    (hCipher : Deciphers)
    (host : η)
    {plain : Bytes}
    (hLong : requestPrefixSize ≤ plain.length) :
    (∀ (room : Room η) row,
        Unharmed (room.handleRequest row) plain) ↔
      RequestSurvives plain := by
  have hNotEmpty : plain ≠ [] := by
    rintro rfl
    contradiction
  have hLength := length_kept plain
  have hCut := lookalike_le plain
  simp only [unharmed_iff hCipher hNotEmpty]
  constructor
  · intro hSame
    constructor
    · by_contra hGone
      rw [not_or] at hGone
      rcases hGone with ⟨hTail, hTime⟩
      have hShort :
          (kept plain).length < requestPrefixSize := by
        have hPos : 0 < requestPrefixSize := by decide
        omega
      have hHere :=
        hSame (withClient host { pk := anonymous }) 0
      rw [handleRequest_unread host anonymous hLong,
        handleRequest, if_pos hShort] at hHere
      have hRooms := (Program.done.inj hHere)
      have hLast :=
        congrArg (fun result => (result.2.client 0).lastRequest)
          hRooms
      exact hTime hLast.symm
    · intro hKind hCarries
      by_contra hTail
      have hStays :
          requestPrefixSize + lookalike plain ≤
            plain.length := by
        by_contra hGone
        rw [requestType_of_tail hLong (by omega)] at hKind
        contradiction
      have hReads :
          SameReads requestPrefixSize (kept plain) plain :=
        sameReads_kept (.inr (.inr hStays))
      have hKeptKind :
          requestTypeOf ((kept plain).getD 4 0) =
            some .keepAlive := by
        rw [hReads 4 (by decide), hKind]
      have hNone : carriesBookmark (kept plain) = false := by
        simp only [carriesBookmark, decide_eq_false_iff_not,
          not_and]
        intro hThere
        omega
      let r := Router.ofByte 0
      have hMoved :=
        handleRequest_bookmark host anonymous hLong hKind r
      have hLeft :=
        handleRequest_bookmark host anonymous
          (by omega) hKeptKind r
      rw [hSame, hMoved, hCarries, hNone] at hLeft
      contradiction
  · intro hSurvives room row
    exact handleRequest_kept hLong hSurvives room row

end Room

/-
  The four decoders, and every plaintext that they accept:
  a peer may fill it up with NULs exactly where it has no
  tail that looks like padding, or not in a part that the
  decoder needs.
-/
theorem zero_padding_is_harmless_iff
    [CryptoCore]
    (hCipher : Deciphers)
    {η : Type}
    (host : η)
    (plain : Bytes) :
    ((decodeText plain).isSome →
        (Unharmed decodeText plain ↔
          lookalike plain = 0)) ∧
      ((decodePath plain).isSome →
        (Unharmed decodePath plain ↔
          lookalike plain = 0)) ∧
      (loginRequestPrefixSize ≤ plain.length →
        ((∀ (room : Room η) pk,
            Unharmed (room.onAnon pk) plain) ↔
          Room.LoginSurvives plain)) ∧
      (requestPrefixSize ≤ plain.length →
        ((∀ (room : Room η) row,
            Unharmed (room.handleRequest row) plain) ↔
          Room.RequestSurvives plain)) := by
  refine ⟨?_, ?_, Room.login_unharmed_iff hCipher host,
    Room.request_unharmed_iff hCipher host⟩
  · apply decoder_unharmed_iff hCipher
    · intro b b' m hText hText'
      rw [length_of_decodeText hText,
        length_of_decodeText hText']
    · rfl
  · apply decoder_unharmed_iff hCipher
    · intro b b' m hPath hPath'
      rw [length_of_decodePath hPath,
        length_of_decodePath hPath']
    · rfl

section Example

open Sample

/-
  A first login without a password, and a path that is
  returned with nothing else: both end in NULs that count.
-/
theorem nuls_at_the_end_are_lost :
    let login := writeUint32 5 ++ writeUint32 0
    let returned : Bytes := [1, 7, 0]
    (loginRequestPrefixSize ≤ login.length ∧
      ¬ ∀ (room : Room Unit) pk,
          Unharmed (room.onAnon pk) login) ∧
      (decodePath returned =
          some { path := [7], extraType := 0, extra := [] } ∧
        ¬ Unharmed decodePath returned) := by
  refine ⟨⟨by decide, ?_⟩, by decide, ?_⟩
  · intro hUnharmed
    let room : Room Unit :=
      .create { allowAnonymousRead := true } ()
    have hOpened :
        openedFrom (Vector.replicate _ 3)
            (writeUint32 5 ++ writeUint32 0) =
          some [5] := by
      decide +kernel
    have hHere :=
      hUnharmed room Room.anonymous (Vector.replicate _ 3)
    rw [hOpened, Option.map_some, Option.some.injEq] at hHere
    have hTold := Room.login_isSome_of_onAnon hHere
    exact absurd hTold (by decide +kernel)
  · intro hUnharmed
    exact absurd (hUnharmed (Vector.replicate _ 3))
      (by decide +kernel)

/- What does not end like padding is never harmed. -/
theorem other_endings_are_kept :
    let plain : Bytes := [1, 7, 5, 0, 2, 0, 0, 0, 9]
    Unharmed decodeText plain ∧
      Unharmed decodePath plain ∧
      (∀ (room : Room Unit) pk,
        Unharmed (room.onAnon pk) plain) ∧
      ∀ (room : Room Unit) row,
        Unharmed (room.handleRequest row) plain := by
  intro plain
  rcases zero_padding_is_harmless_iff
      (fun _ _ => rfl) () plain with
    ⟨hText, hPath, hLogin, hRequest⟩
  exact
    ⟨(hText (by decide)).mpr (by decide),
      (hPath (by decide)).mpr (by decide),
      (hLogin (by decide)).mpr (by decide),
      (hRequest (by decide)).mpr (by decide)⟩

end Example

end MeshCore
