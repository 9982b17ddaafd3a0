import TelegramServer.Secret.Handlers

/-!
# Asking about the chats of others

A stranger to a chat learns nothing of it from `acceptEncryption` and `discardEncryption`, and
learns from `sendEncrypted` whether it exists and is active.
-/

namespace TelegramServer.Secret

open Conc List

inductive Probe where
  | accept (accessHash : Int) (gB : Bytes) (keyFingerprint : Int)
  | discard
  | send (accessHash randomID : Int) (data : Bytes) (limited : Option RPCError)

def Probe.code (h : Handlers) (userID chatID : Int) : Probe → Handler
  | .accept accessHash gB keyFingerprint =>
    handleAcceptEncryption h 0 userID chatID accessHash gB keyFingerprint
  | .discard => handleDiscardEncryption 0 userID chatID
  | .send accessHash randomID data limited =>
    handleSendEncryptedMessage h 0 userID chatID accessHash randomID data limited

def Stranger (userID chatID : Int) (s : World) : Prop :=
  ∀ c ∈ s.chats, c.id = chatID → c.party userID = false

/-- Two databases that differ only in the chat, which the user is not a party of. -/
structure Twins (userID chatID : Int) (s s' : World) : Prop where
  ids : (s.chats.map (·.id)).Nodup
  ids' : (s'.chats.map (·.id)).Nodup
  chats : s.chats.filter (·.id ≠ chatID) = s'.chats.filter (·.id ≠ chatID)
  rest : s' = { s with chats := s'.chats }
  stranger : Stranger userID chatID s
  stranger' : Stranger userID chatID s'

/-- The user gets the same reply in both databases, and changes neither. -/
def Blind (h : Handlers) (userID chatID : Int) (q : Probe) : Prop :=
  ∀ s s', Twins userID chatID s s' → ∃ reply, (q.code h userID chatID).alone s = some (reply, s) ∧
      (q.code h userID chatID).alone s' = some (reply, s')

variable {h : Handlers} {userID chatID : Int} {s : World}

theorem Stranger.found (hs : Stranger userID chatID s) {c : SecretChat}
    (hc : s.chatByID chatID = some c) : c.party userID = false :=
  hs c (mem_of_find?_eq_some hc) (by simpa using find?_some hc)

def acceptAnswer (h : Handlers) (userID chatID accessHash : Int) (gB : Bytes) : RPCError :=
  match secretChatID h chatID accessHash userID with
  | none => errEncryptionIDInvalid
  | some _ => if validateDHValue h gB then errEncryptionIDInvalid else errDHValueInvalid

theorem alone_secretChatByID {A : Type} (me : Nat) (chatID : Int) (k : Option SecretChat → Task A)
    (s : World) : (secretChatByID me chatID >>= k).alone s = (k (s.chatByID chatID)).alone s := rfl

theorem alone_accept (hs : Stranger userID chatID s) (accessHash : Int) (gB : Bytes)
    (keyFingerprint : Int) :
    (handleAcceptEncryption h 0 userID chatID accessHash gB keyFingerprint).alone s =
      some (.error (.rpc (acceptAnswer h userID chatID accessHash gB)), s) := by
  unfold handleAcceptEncryption acceptAnswer
  cases hid : secretChatID h chatID accessHash userID with
  | none => rfl
  | some id =>
    obtain rfl : chatID = id := by
      unfold secretChatID at hid
      split at hid
      · cases hid
      · split at hid
        · cases hid
        · exact Option.some.inj hid
    dsimp only
    by_cases hvalid : validateDHValue h gB
    · rw [if_neg (not_not_intro hvalid), if_pos hvalid]
      rw [alone_secretChatByID]
      cases hc : s.chatByID chatID with
      | none => rfl
      | some c =>
        have hne : userID ≠ c.participantID := by
          rintro rfl
          simpa [SecretChat.party] using hs.found hc
        dsimp only
        rw [if_pos hne]
        rfl
    · rw [if_pos hvalid, if_neg hvalid]
      rfl

theorem alone_discard (hs : Stranger userID chatID s) :
    (handleDiscardEncryption 0 userID chatID).alone s =
      some (.error (.rpc errEncryptionIDInvalid), s) := by
  unfold handleDiscardEncryption
  rw [alone_secretChatByID]
  cases hc : s.chatByID chatID with
  | none => rfl
  | some c =>
    dsimp only
    rw [hs.found hc, if_pos (by simp)]
    rfl

theorem alone_send (hs : Stranger userID chatID s) {accessHash randomID : Int} {data : Bytes}
    {limited : Option RPCError} (hlen : data.length ≤ maxEncryptedData) :
    (handleSendEncryptedMessage h 0 userID chatID accessHash randomID data limited).alone s =
      some (.error (.rpc (match s.chatByID chatID with
        | none => errEncryptionIDInvalid
        | some c => if c.state = .active then errChatForbidden else errEncryptionDeclined)),
          s) := by
  unfold handleSendEncryptedMessage
  rw [if_neg (Nat.not_lt.mpr hlen)]
  rw [alone_secretChatByID]
  cases hc : s.chatByID chatID with
  | none => rfl
  | some c =>
    dsimp only
    by_cases hactive : c.state = .active
    · rw [if_neg (not_not_intro hactive), hs.found hc, if_pos (by simp), if_pos hactive]
      rfl
    · rw [if_pos hactive, if_neg hactive]
      rfl

def foreignChat (userID chatID : Int) : SecretChat :=
  { id := chatID, adminID := userID + 1, participantID := userID + 2, state := .active }

theorem twins_foreignChat (userID chatID : Int) :
    Twins userID chatID {} { chats := [foreignChat userID chatID] } where
  ids := nodup_nil
  ids' := nodup_singleton _
  chats := by simp [foreignChat]
  rest := rfl
  stranger := nofun
  stranger' := by
    intro c hc _
    obtain rfl := mem_singleton.mp hc
    simp [SecretChat.party, foreignChat]

/-- A request of a stranger is answered without regard to the chat exactly if it is not a
`sendEncrypted` with data that is not too long. -/
theorem probe_blind_iff (h : Handlers) (userID chatID : Int) (q : Probe) :
    Blind h userID chatID q ↔ ∀ accessHash randomID data limited,
      q = .send accessHash randomID data limited → maxEncryptedData < data.length := by
  constructor
  · rintro hblind accessHash randomID data limited rfl
    by_contra hlen
    rw [Nat.not_lt] at hlen
    have htwins := twins_foreignChat userID chatID
    obtain ⟨reply, hreply, hreply'⟩ := hblind _ _ htwins
    have hnone := (alone_send htwins.stranger hlen).symm.trans hreply
    have hsome := (alone_send htwins.stranger' hlen).symm.trans hreply'
    simp [World.chatByID, foreignChat] at hnone hsome
    rw [← hnone] at hsome
    exact absurd hsome (by decide)
  · intro hsend s s' htwins
    cases q with
    | accept accessHash gB keyFingerprint =>
      exact ⟨_, alone_accept htwins.stranger _ _ _, alone_accept htwins.stranger' _ _ _⟩
    | discard => exact ⟨_, alone_discard htwins.stranger, alone_discard htwins.stranger'⟩
    | send accessHash randomID data limited =>
      refine ⟨.error (.rpc errMessageTooLong), ?_, ?_⟩
      · change (handleSendEncryptedMessage ..).alone s = _
        rw [handleSendEncryptedMessage, if_pos (hsend _ _ _ _ rfl)]
        rfl
      · change (handleSendEncryptedMessage ..).alone s' = _
        rw [handleSendEncryptedMessage, if_pos (hsend _ _ _ _ rfl)]
        rfl

/-- The user 3 asks about the chat 1, which is not there, and which is a chat of the users 4 and
5. -/
theorem send_tells_chat : Twins 3 1 {} { chats := [foreignChat 3 1] } ∧
      ((Probe.send 0 5 [7] none).code plainHandlers 3 1).alone {} =
        some (.error (.rpc errEncryptionIDInvalid), {}) ∧
      ((Probe.send 0 5 [7] none).code plainHandlers 3 1).alone { chats := [foreignChat 3 1] } =
        some (.error (.rpc errChatForbidden), { chats := [foreignChat 3 1] }) :=
  ⟨twins_foreignChat 3 1, by decide +kernel, by decide +kernel⟩

end TelegramServer.Secret
