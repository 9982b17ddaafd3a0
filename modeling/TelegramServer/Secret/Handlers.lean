import TelegramServer.Secret.World

/-!
# The methods of secret chats

`messages.requestEncryption`, `acceptEncryption`, `discardEncryption`, `sendEncrypted` and
`receivedQueue`, and the part of `updates.getDifference` that reports secret chats. The user that a
request names is resolved, and the verdict of the rate limiter is an argument.
-/

namespace TelegramServer.Secret

open Conc

inductive Err where
  | rpc (e : RPCError)
  /-- An error of the store, which is not one of the client. -/
  | store (text : String)
  deriving DecidableEq

def errDHValueInvalid : RPCError := ⟨400, "DH_G_A_INVALID"⟩
def errEncryptionIDInvalid : RPCError := ⟨400, "ENCRYPTION_ID_INVALID"⟩
def errEncryptionAlreadyAccepted : RPCError := ⟨400, "ENCRYPTION_ALREADY_ACCEPTED"⟩
def errEncryptionAlreadyDeclined : RPCError := ⟨400, "ENCRYPTION_ALREADY_DECLINED"⟩
def errUserIDInvalid : RPCError := ⟨400, "USER_ID_INVALID"⟩
def errPeerFlood : RPCError := ⟨400, "PEER_FLOOD"⟩
def errMessageTooLong : RPCError := ⟨400, "MESSAGE_TOO_LONG"⟩
def errEncryptionDeclined : RPCError := ⟨400, "ENCRYPTION_DECLINED"⟩
def errChatForbidden : RPCError := ⟨403, "CHAT_FORBIDDEN"⟩

inductive Reply where
  | encryption (chat : EncryptedChat)
  | sentEncrypted (date : Int)
  | receivedQueue (randomIDs : List Int)
  | differenceEmpty (date : Int)
  | differenceSlice (updates : List UpdateEncryption) (date : Int)
  | difference (updates : List UpdateEncryption) (date : Int)
  | done
  deriving DecidableEq

/-- What the handlers use of other packages: the access hash that a viewer has for a chat, the
check of a group element, and the digest. -/
structure Handlers where
  secretChatHash : Int → Int → Int
  checkDHParams : Bytes → Bool
  sha256 : Bytes → Bytes

def plainHandlers : Handlers where
  secretChatHash _ chatID := chatID
  checkDHParams _ := true
  sha256 v := v

abbrev Task (A : Type) := Prog World Op Empty A

abbrev Handler := Task (Except Err Reply)

def fail (e : RPCError) : Handler := pure (.error (.rpc e))

def dhValueLen : Nat := 256

def maxEncryptedData : Nat := 512 * 1024

variable (h : Handlers) (me : Nat)

def validateDHValue (v : Bytes) : Bool :=
  v.length = dhValueLen ∧ h.checkDHParams v

def encryptedChatFor (c : SecretChat) (viewerID : Int) : EncryptedChat :=
  let hash := h.secretChatHash viewerID c.id
  match c.state with
  | .requested =>
    if viewerID ≠ c.participantID then
      .waiting c.id hash (unix c.date) c.adminID c.participantID
    else .requested c.id hash (unix c.date) c.adminID c.participantID c.gA
  | .active =>
    .chat c.id hash (unix c.date) c.adminID c.participantID (c.gAOrB.getD [])
      (c.keyFingerprint.getD 0)
  | .discarded => .discarded c.id

def op {A : Type} (o : Op) (answer : World → A) : Task A :=
  .atomic o fun s => (answer s, o.apply me s)

/-- The call waits for the lock, so a section that finds it taken leads nowhere. -/
def advisoryLock (key : Int) : Task Unit :=
  .step (.lock key) (fun s => (Op.lock key).apply me s) fun s =>
    if s.locked key then .halt else .ret ()

/-! ## The life cycle -/

inductive Create where
  | created (c : SecretChat)
  | existing (c : SecretChat)
  | tooMany
  | failed (text : String)

/-- The part of `CreateSecretChatRequest` behind the lookup of the random id. -/
def allocateSecretChat (date adminID participantID : Int) (gA gAHash : Bytes) (randomID : Int) :
    Task Create := do
  let outstanding ← op me (.countRequested adminID) fun s => (s.requestedBy adminID).length
  if maxOutstandingSecretChats ≤ outstanding then
    op me (.rollback adminID) fun _ => Create.tooMany
  else
    let id ← op me .nextChatID fun s => s.nextChatID
    if maxInt32 < id then
      op me (.rollback adminID) fun _ => Create.failed "secret chat id sequence exhausted"
    else
      let c : SecretChat :=
        { id, adminID, participantID, gAHash, gA, randomID, date }
      op me (.insertChat c) fun s =>
        if s.conflicts c then .failed "insert secret chat" else .created c

def createSecretChatRequest (adminID participantID : Int) (gA gAHash : Bytes) (randomID : Int) :
    Task Create := do
  let date ← op me .begins fun s => s.now
  advisoryLock me adminID
  if randomID ≠ 0 then
    match ← op me (.chatByAdminRandomID adminID randomID) fun s =>
        s.chatByAdminRandomID adminID randomID with
    | some c => op me (.rollback adminID) fun _ => Create.existing c
    | none => allocateSecretChat me date adminID participantID gA gAHash randomID
  else allocateSecretChat me date adminID participantID gA gAHash randomID

def notifyEncryption (userID chatID : Int) : Task Unit :=
  op me (.notifyEncryption userID chatID) fun _ => ()

def waitingReply (userID : Int) (c : SecretChat) : Except Err Reply :=
  .ok
    (.encryption (.waiting c.id (h.secretChatHash userID c.id)
      (unix c.date) c.adminID c.participantID))

def handleRequestEncryption (userID participantID : Int) (gA : Bytes) (randomID : Int) : Handler :=
  if participantID = userID then fail errUserIDInvalid
  else if ¬ validateDHValue h gA then fail errDHValueInvalid
  else do
    if ← op me (.userByID participantID) fun s => decide (participantID ∈ s.users) then
      match ← createSecretChatRequest me userID participantID gA (h.sha256 gA) randomID with
      | .tooMany => fail errPeerFlood
      | .failed text => pure (.error (.store text))
      | .existing c => pure (waitingReply h userID c)
      | .created c =>
        notifyEncryption me participantID c.id
        pure (waitingReply h userID c)
    else fail errUserIDInvalid

/-- `secretChatID`: the chat that the request names, if the hash is that of the viewer. -/
def secretChatID (chatID accessHash viewerID : Int) : Option Int :=
  if chatID = 0 then none
  else if accessHash ≠ h.secretChatHash viewerID chatID then none
  else some chatID

def World.accepted (s : World) (id participantID : Int) (gB : Bytes) (keyFingerprint date : Int) :
    Option SecretChat :=
  (s.chats.find? fun c => c.id = id ∧ c.participantID = participantID ∧ c.state = .requested).map
    (·.accept id participantID gB keyFingerprint date)

def World.discarded (s : World) (id date : Int) : Option SecretChat :=
  (s.chats.find? fun c => c.id = id ∧ (c.state = .requested ∨ c.state = .active)).map
    (·.discard id date)

/-- The statement starts at one time and changes the row at another. -/
def acceptSecretChat (id participantID : Int) (gB : Bytes) (keyFingerprint : Int) :
    Task (Option SecretChat) := do
  let date ← op me .begins fun s => s.now
  op me (.acceptChat id participantID gB keyFingerprint date) fun s =>
    s.accepted id participantID gB keyFingerprint date

def discardSecretChat (id : Int) : Task (Option SecretChat) := do
  let date ← op me .begins fun s => s.now
  op me (.discardChat id date) fun s => s.discarded id date

def secretChatByID (id : Int) : Task (Option SecretChat) :=
  op me (.chatByID id) fun s => s.chatByID id

def staleAcceptError (chatID : Int) : Handler := do
  match ← secretChatByID me chatID with
  | none => fail errEncryptionIDInvalid
  | some c =>
    if c.state = .discarded then fail errEncryptionAlreadyDeclined
    else fail errEncryptionAlreadyAccepted

def handleAcceptEncryption (userID chatID accessHash : Int) (gB : Bytes) (keyFingerprint : Int) :
    Handler :=
  match secretChatID h chatID accessHash userID with
  | none => fail errEncryptionIDInvalid
  | some id =>
    if ¬ validateDHValue h gB then fail errDHValueInvalid
    else do
      match ← secretChatByID me id with
      | none => fail errEncryptionIDInvalid
      | some c =>
        if userID ≠ c.participantID then fail errEncryptionIDInvalid
        else if c.state = .discarded then fail errEncryptionAlreadyDeclined
        else
          match ← acceptSecretChat me id userID gB keyFingerprint with
          | none => staleAcceptError me id
          | some c =>
            notifyEncryption me c.adminID c.id
            pure (.ok (.encryption (.chat c.id (h.secretChatHash userID c.id) (unix c.date)
              c.adminID c.participantID (c.gAOrB.getD []) (c.keyFingerprint.getD 0))))

def handleDiscardEncryption (userID chatID : Int) : Handler := do
  match ← secretChatByID me chatID with
  | none => fail errEncryptionIDInvalid
  | some c =>
    if ¬ c.party userID then fail errEncryptionIDInvalid
    else
      match ← discardSecretChat me c.id with
      | none => pure (.ok (.encryption (.discarded c.id)))
      | some c' =>
        notifyEncryption me (c'.other userID) c'.id
        pure (.ok (.encryption (.discarded c.id)))

inductive Stored where
  | new (e : EncryptedEvent)
  | dup (e : EncryptedEvent)
  | failed (text : String)

def sendEncryptedMessage (p : EncryptedSend) : Task Stored := do
  let date ← op me .begins fun s => s.now
  advisoryLock me p.recipientID
  match ← op me (.insertEvent p date) fun s => s.newEvent p date with
  | none =>
    op me (.rollback p.recipientID) fun _ => ()
    match ← op me (.eventByRandomID p) fun s => s.eventByRandomID p.recipientID p.randomID with
    | none => pure (.failed "dedup lookup")
    | some e => pure (.dup e)
  | some e => op me (.commitEvent e) fun _ => .new e

/-- Behind the lookup of a transport retry; `limited` is the verdict of the rate limiter. -/
def sendNewEncrypted (p : EncryptedSend) (limited : Option RPCError) : Handler :=
  match limited with
  | some e => fail e
  | none => do
      match ← sendEncryptedMessage me p with
      | .failed text => pure (.error (.store text))
      | .dup e => pure (.ok (.sentEncrypted (unix e.date)))
      | .new e =>
        op me (.notifyEncryptedMsg p.recipientID e.qts) fun _ => ()
        pure (.ok (.sentEncrypted (unix e.date)))

def handleSendEncryptedMessage (userID chatID accessHash randomID : Int) (data : Bytes)
    (limited : Option RPCError) : Handler :=
  if maxEncryptedData < data.length then fail errMessageTooLong
  else do
    match ← secretChatByID me chatID with
    | none => fail errEncryptionIDInvalid
    | some c =>
      if c.state ≠ .active then fail errEncryptionDeclined
      else if ¬ c.party userID then fail errChatForbidden
      else if accessHash ≠ h.secretChatHash userID chatID then fail errEncryptionIDInvalid
      else
        let p : EncryptedSend := ⟨c.other userID, chatID, randomID, data⟩
        if randomID ≠ 0 then
          match ← op me (.eventByRandomID p) fun s => s.eventByRandomID p.recipientID randomID with
          | some e => pure (.ok (.sentEncrypted (unix e.date)))
          | none => sendNewEncrypted me p limited
        else sendNewEncrypted me p limited

def handleReceivedQueue (userID maxQts : Int) : Handler := do
  let qts ← op me (.getQts userID) fun s => ((s.updateState userID).map (·.qts)).getD 0
  op me (.deleteEvents userID (min maxQts qts)) fun s =>
    .ok (.receivedQueue ((s.events.filter fun e =>
      e.ownerID = userID ∧ e.qts ≤ min maxQts qts).map (·.randomID)))

def sendMessage (userIDs : List Int) : Handler := do
  let date ← op me .begins fun s => s.now
  op me (.bumpState userIDs date) fun _ => .ok .done

def updateEncryption (userID : Int) (c : SecretChat) : UpdateEncryption :=
  ⟨encryptedChatFor h c userID, unix c.date⟩

/-- The reply for the given secret chats. `others` says that there is something else to report, and
`more` that the report is cut. -/
def differenceReply (others more : Bool) (updates : List UpdateEncryption) (date : Int) : Reply :=
  if ¬ more ∧ ¬ others ∧ updates = [] then .differenceEmpty date
  else if more then .differenceSlice updates date
  else .difference updates date

/-- What the client makes of a reply: its new date, and what it is told. -/
def Reply.told : Reply → Int × List UpdateEncryption
  | .differenceEmpty date => (date, [])
  | .differenceSlice updates date => (date, updates)
  | .difference updates date => (date, updates)
  | _ => (0, [])

/-- One round of the client: it asks with its date, the state is read before the secret chats, and
the client takes the reply. -/
def handleGetDifference (userID : Int) (others more : Bool) : Handler := do
  let date ← op me .ask fun s => s.client.date
  let state ← op me (.getState userID) fun s => ((s.updateState userID).map (unix ·.date)).getD 0
  let chats ← op me (.chatsAfterDate userID date) fun s => s.chatsAfterDate userID date
  let reply := differenceReply others more (chats.map (updateEncryption h userID)) state
  op me (.deliver reply.told.1 reply.told.2) fun _ => .ok reply

end TelegramServer.Secret
