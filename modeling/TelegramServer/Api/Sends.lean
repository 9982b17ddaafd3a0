import TelegramServer.Api.Handlers

/-!
# The answers of sends and forwards

`messages.sendMessage`, `messages.sendMedia` and `messages.forwardMessages` look up the
caller's random id before they write, and the store does so again; whatever message is found
is the answer. The random id is looked up for the sender alone, so the answer is of the
requested dialog unless the sender has used the id elsewhere.
-/

namespace TelegramServer.Api

open Tx TelegramServer.Store List

/-! ## The handlers -/

def sentUpdates (docs : Int → Option Wire.Document) (m : Message) (randomID pts : Int) :
    List Wire.Update :=
  [.messageID m.localID randomID, .newMessage (messageToTL m [] docs []) pts]

def noDocs : Int → Option Wire.Document := fun _ => none

/-- `MessageByRandomID`: the sender's own copy of the message that carries the random id. -/
def messageByRandomID (userID randomID : Int) : Handler (Option Message) :=
  if randomID = 0 then pure none else .query (·.messageByRandomID userID randomID)

structure Dest where
  toChat : Bool
  peerID : Int

variable {states : Owned} {files : List File} {c : StoreConfig}
  {docs : Int → Option Wire.Document} {m : Message} {dest : Dest}
  {now peerID pts randomID userID : Int} {messages : List ForwardedMessage} {own : Int → Prop}
  {d d' : DB}

def Dest.peerType (dest : Dest) : PeerType :=
  forwardPeerType dest.toChat

def Dest.holds (dest : Dest) (m : Message) : Prop :=
  m.peerType = dest.peerType ∧ m.peerID = dest.peerID

def requireDest (dest : Dest) (userID : Int) : Handler Unit :=
  if dest.toChat then requireMember dest.peerID userID else pure ()

/-- What is decided outside the store: the clock, whether the rate limiter refuses, and what the
documents are rendered with. -/
structure SendEnv where
  now : Int
  limited : Bool
  env : Env

def retryReply (docs : Int → Option Wire.Document) (userID randomID : Int) (m : Message) :
    Handler (List Wire.Update) := do
  let pts ← messagePts userID m.localID
  pure (sentUpdates docs m randomID pts)

def sendChatErr : Outcome Reply StoreErr → RpcErr
  | .failed .notMember => .peerIDInvalid
  | .failed .chatWriteForbidden => .chatWriteForbidden
  | _ => .internal

/-- `sendMessage` to a user, once the text and the peer are resolved. -/
def sendUserMessage (e : SendEnv) (userID toID : Int) (text : String)
    (randomID replyToMsgID : Int) : Handler (List Wire.Update) := do
  let existing ← messageByRandomID userID randomID
  match existing with
  | some m => retryReply noDocs userID randomID m
  | none =>
    if e.limited then .fail .floodWait
    else do
      let o ← .exec (.send e.now ⟨userID, toID, text, randomID, 0, replyToMsgID⟩)
      match o.answer with
      | some (.sent s) => pure (sentUpdates noDocs s.message randomID s.senderPts)
      | _ => .fail .internal

def sendChatMessage (e : SendEnv) (userID chatID : Int) (text : String)
    (randomID replyToMsgID : Int) : Handler (List Wire.Update) := do
  requireMember chatID userID
  let existing ← messageByRandomID userID randomID
  match existing with
  | some m => retryReply noDocs userID randomID m
  | none =>
    if e.limited then .fail .floodWait
    else do
      let o ← .exec (.sendChat e.now ⟨chatID, userID, text, randomID, 0, none, replyToMsgID⟩)
      match o.answer with
      | some (.fannedOut ⟨some m, perOwner, _⟩) =>
        pure (sentUpdates noDocs m randomID ((ptsOf perOwner userID).getD 0))
      | _ => .fail (sendChatErr o)

def handleSendMessage (e : SendEnv) (userID : Int) (dest : Dest) (text : String)
    (randomID replyToMsgID : Int) : Handler (List Wire.Update) :=
  if dest.toChat then sendChatMessage e userID dest.peerID text randomID replyToMsgID
  else sendUserMessage e userID dest.peerID text randomID replyToMsgID

/-- What a media request brings: whether it is an uploaded document without a thumbnail, its rights,
whether its file is named well, and the file that assembling the upload gives. -/
structure Upload where
  document : Bool
  rights : Option (List String)
  named : Bool
  assembled : Except RpcErr Int

def sendChatMediaErr : Outcome Reply StoreErr → RpcErr
  | .failed .fileMissing => .mediaInvalid
  | o => sendChatErr o

def sendChatMedia (e : SendEnv) (userID chatID : Int) (text : String) (randomID fileID : Int)
    (rights : Option (List String)) : Handler (List Wire.Update) := do
  let o ← .exec (.sendChat e.now ⟨chatID, userID, text, randomID, fileID, rights, 0⟩)
  match o.answer with
  | some (.fannedOut ⟨some m, perOwner, _⟩) => do
      let docs ← loadDocs e.env [m]
      pure (sentUpdates docs m randomID ((ptsOf perOwner userID).getD 0))
  | _ => .fail (sendChatMediaErr o)

def sendUserMedia (e : SendEnv) (userID toID : Int) (text : String) (randomID fileID : Int) :
    Handler (List Wire.Update) := do
  let o ← .exec (.send e.now ⟨userID, toID, text, randomID, fileID, 0⟩)
  match o.answer with
  | some (.sent s) => do
      let docs ← loadDocs e.env [s.message]
      pure (sentUpdates docs s.message randomID s.senderPts)
  | _ => .fail (if o = .failed .fileMissing then .mediaInvalid else .internal)

/-- `CheckChatWritePermission` for a media send to a chat: whether the random id is a duplicate. -/
def checkMediaRights (userID : Int) (dest : Dest) (randomID : Int) (rights : Option (List String)) :
    Handler Bool :=
  if dest.toChat then do
    let o ← .exec (.checkChatWrite dest.peerID userID randomID rights)
    match o.answer with
    | some (.flag dup) => pure dup
    | _ => .fail (sendChatErr o)
  else pure false

/-- `resendFileID`: the file of the stored message, if the random id names one that is not
deleted. -/
def resendFileID (userID randomID : Int) : Handler (Option Int) := do
  let existing ← messageByRandomID userID randomID
  match existing with
  | some m => if m.deleted then .fail .mediaInvalid else pure (some m.fileID)
  | none => pure none

/-- The file that a media send names: the stored one of a resend, or the upload's. -/
def mediaFile (stored : Option Int) (assembled : Except RpcErr Int) : Handler Int :=
  match stored, assembled with
  | some id, _ => pure id
  | none, .ok id => pure id
  | none, .error err => .fail err

def sendMediaFile (e : SendEnv) (userID : Int) (dest : Dest) (text : String) (randomID : Int)
    (media : Upload) (duplicate : Bool) : Handler (List Wire.Update) := do
  let stored ← resendFileID userID randomID
  if duplicate ∧ stored = none then .fail .mediaInvalid
  else do
    let fileID ← mediaFile stored media.assembled
    if dest.toChat then sendChatMedia e userID dest.peerID text randomID fileID media.rights
    else sendUserMedia e userID dest.peerID text randomID fileID

def handleSendMedia (e : SendEnv) (userID : Int) (dest : Dest) (text : String) (randomID : Int)
    (media : Upload) : Handler (List Wire.Update) := do
  requireDest dest userID
  let existing ← messageByRandomID userID randomID
  match existing with
  | some m =>
    if m.deleted then .fail .mediaInvalid
    else do
      let pts ← messagePts userID m.localID
      let docs ← loadDocs e.env [m]
      pure (sentUpdates docs m randomID pts)
  | none =>
    if media.document = false then .fail .mediaInvalid
    else if e.limited then .fail .floodWait
    else do
      let duplicate ← checkMediaRights userID dest randomID media.rights
      if duplicate = false ∧ media.named = false then .fail .mediaInvalid
      else sendMediaFile e userID dest text randomID media duplicate

def maxForwardMessagesPerCall : Nat := 100

/-- Where the sources of a forward are: in a dialog of the caller's, or among the posts of a
channel, which were read already (or refused). -/
inductive Source where
  | dialog (peerType : PeerType) (peerID : Int)
  | channel (posts : Except RpcErr (List ForwardSource))

/-- The stored messages of a full retry; none if some random id is new. -/
def storedMessages (userID : Int) : List Int → Handler (Option (List Message))
  | [] => pure (some [])
  | randomID :: randomIDs => do
      let existing ← messageByRandomID userID randomID
      match existing with
      | none => pure none
      | some m => do
          let rest ← storedMessages userID randomIDs
          pure (rest.map (m :: ·))

def atTheirPts (userID : Int) : List Message → Handler (List ForwardedMessage)
  | [] => pure []
  | m :: ms => do
      let pts ← messagePts userID m.localID
      let rest ← atTheirPts userID ms
      pure (⟨m, pts⟩ :: rest)

/-- The rows that a forward names, which have to be live and in the dialog. -/
def forwardSources (userID : Int) (peerType : PeerType) (peerID : Int) :
    List Int → Handler (List ForwardSource)
  | [] => pure []
  | id :: ids => do
      let row ← .query (·.messageByOwnerLocal userID id)
      match row with
      | none => .fail .peerIDInvalid
      | some m =>
        if m.deleted ∨ m.peerType ≠ peerType ∨ m.peerID ≠ peerID then .fail .peerIDInvalid
        else do
          let rest ← forwardSources userID peerType peerID ids
          pure ({ fromID := m.fromID, date := m.date, text := m.text, fileID := m.fileID } :: rest)

def forwardReply (e : SendEnv) (messages : List ForwardedMessage) (randomIDs : List Int) :
    Handler (List Wire.Update) := do
  let docs ← loadDocs e.env (messages.map (·.message))
  pure ((messages.zip randomIDs).flatMap fun x => sentUpdates docs x.1.message x.2 x.1.pts)

def forwardErr : Outcome Reply StoreErr → RpcErr
  | .failed .messageInvalid => .messageIDInvalid
  | .failed .fileMissing => .messageIDInvalid
  | .failed .notMember => .peerIDInvalid
  | .failed .chatWriteForbidden => .chatWriteForbidden
  | _ => .internal

def sourcesOf (userID : Int) (ids : List Int) : Source → Handler (List ForwardSource)
  | .dialog peerType peerID => forwardSources userID peerType peerID ids
  | .channel (.ok posts) => pure posts
  | .channel (.error err) => .fail err

def handleForwardMessages (e : SendEnv) (userID : Int) (dest : Dest) (source : Source)
    (ids randomIDs : List Int) : Handler (List Wire.Update) :=
  if maxForwardMessagesPerCall < ids.length then .fail .limitInvalid
  else if ids = [] ∨ randomIDs.length ≠ ids.length then .fail .peerIDInvalid
  else do
    let stored ← storedMessages userID randomIDs
    match stored with
    | some ms => do
        let messages ← atTheirPts userID ms
        forwardReply e messages randomIDs
    | none =>
      if e.limited then .fail .floodWait
      else do
        requireDest dest userID
        let sources ← sourcesOf userID ids source
        let o ← .exec (.forward e.now userID dest.toChat dest.peerID sources randomIDs)
        match o.answer with
        | some (.forwarded _ messages) => forwardReply e messages randomIDs
        | _ => .fail (forwardErr o)

section Answers

structure Stored (d : DB) (userID : Int) (dest : Dest) (randomID : Int) (m : Message) : Prop where
  row : ∃ m' ∈ d.messages, m'.frozen = m.frozen
  owner : m.ownerID = userID
  tag : m.randomID = randomID
  untagged : randomID = 0 → dest.holds m

def Answered (d : DB) (userID : Int) (dest : Dest) (randomIDs : List Int) (ups : List Wire.Update) :
    Prop :=
  ∃ docs messages, List.Forall₂ (fun r (f : ForwardedMessage) => Stored d userID dest r f.message)
    randomIDs messages ∧
    ups = (messages.zip randomIDs).flatMap fun x => sentUpdates docs x.1.message x.2 x.1.pts

theorem Stored.grows (h : Stored d userID dest randomID m) (hg : Grows d d') :
    Stored d' userID dest randomID m := by
  obtain ⟨m', hm', hf⟩ := h.row
  obtain ⟨m'', hm'', hf'⟩ := hg.row hm'
  exact ⟨⟨m'', hm'', hf'.trans hf⟩, h.owner, h.tag, h.untagged⟩

theorem Stored.of_found (h : d.messageByRandomID userID randomID = some m) :
    Stored d userID dest randomID m := by
  obtain ⟨hm, hu, hr, h0⟩ := DB.messageByRandomID_some h
  exact ⟨⟨m, hm, rfl⟩, hu, hr, fun hzero => absurd hzero h0⟩

theorem Stored.answered (h : Stored d userID dest randomID m) :
    Answered d userID dest [randomID] (sentUpdates docs m randomID pts) :=
  ⟨docs, [⟨m, pts⟩], .cons h .nil, by simp⟩

theorem Stored.of_sent {p : SendParams} {s : Sent} (hspec : SendSpec p d s d')
    (heffect : SendRows now p d s d') :
    Stored d' p.fromID ⟨false, p.toID⟩ p.randomID s.message := by
  obtain ⟨hans, hdup⟩ := hspec
  refine ⟨⟨_, hans.mem, rfl⟩, hans.owner, hans.randomID, fun hzero => ?_⟩
  rcases hdup with ⟨-, h0, -⟩ | ⟨hdup, -⟩
  · exact absurd hzero h0
  · obtain ⟨as, l, k, -, -, hmsg, -⟩ := heffect hdup
    rw [hmsg]
    exact ⟨rfl, rfl⟩

theorem Stored.of_fannedOut {p : ChatSend} {f : FannedOut}
    (hspec : SendChatSpec p d f d') (heffect : FanOutRows now p.fanOut d f d')
    (hm : f.sender = some m) :
    Stored d' p.fromID ⟨true, p.chatID⟩ p.randomID m := by
  obtain ⟨-, x, hx, hmem, hown, hrandom, -, hdup⟩ := hspec
  obtain rfl := Option.some.inj (hx.symm.trans hm)
  refine ⟨⟨_, hmem, rfl⟩, hown, hrandom, fun hzero => ?_⟩
  rcases hdup with ⟨-, h0, -⟩ | ⟨hdup, -⟩
  · exact absurd hzero h0
  · obtain ⟨n, owners, delivered, as, -, -, hdel, hsender⟩ := heffect hdup
    have hnew := hsender _ hm
    rw [hdel.rows] at hnew
    obtain ⟨b, -, rfl⟩ := mem_map.mp hnew
    exact ⟨rfl, rfl⟩

variable {randomIDs : List Int}

theorem answered_of_forwarded {toChat : Bool} {perOwner : Owned}
    (hspec : ForwardSpec userID toChat peerID randomIDs d perOwner messages d')
    (heffect : ForwardEffect userID toChat peerID d messages d') :
    List.Forall₂ (fun r (f : ForwardedMessage) => Stored d' userID ⟨toChat, peerID⟩ r f.message)
      randomIDs messages := by
  refine List.forall₂_iff_get.mpr ⟨hspec.1.length_eq, fun i hi hi' => ?_⟩
  have hans := hspec.1.get hi hi'
  exact ⟨⟨_, hans.mem, rfl⟩, hans.owner, hans.randomID, fun hzero =>
    heffect.2 _ (get_mem _ _) (hans.randomID.trans hzero)⟩

end Answers

/-! ## The rows that the calls store -/

def SendsTo (userID : Int) (dest : Dest) : Call → Prop
  | .send _ p => p.fromID = userID ∧ dest = ⟨false, p.toID⟩
  | .sendChat _ p => p.fromID = userID ∧ dest = ⟨true, p.chatID⟩
  | .forward _ fromID toChat peerID _ _ => fromID = userID ∧ dest = ⟨toChat, peerID⟩
  | .checkChatWrite _ _ _ _ => True
  | _ => False

/-- All that the sender has under the random id is in the dialog with the destination. -/
def KeptIn (userID : Int) (dest : Dest) (randomID : Int) (d : DB) : Prop :=
  ∀ m ∈ d.messages, m.ownerID = userID → m.randomID = randomID → dest.holds m

theorem KeptIn.did {w : DB} {as : List Act}
    (h : KeptIn userID dest randomID d) (hdid : Did as d w) (hadds : ∀ a ∈ as, a.adds)
    (hnew : ∀ x ∈ newRows as, x.ownerID = userID → dest.holds x) :
    KeptIn userID dest randomID w := by
  intro m hm howner hrandom
  rw [hdid.eq, messages_of_adds hadds] at hm
  rcases mem_append.mp hm with hm | hm
  · exact h m hm howner hrandom
  · exact hnew m hm howner

theorem KeptIn.sendsTo {x : StoreRecord}
    (hx : Recorded x) (hsends : SendsTo userID dest x.call)
    (h : KeptIn userID dest randomID x.pre) :
    KeptIn userID dest randomID x.post := by
  obtain ⟨hok, heffect⟩ := hx
  cases ha : x.outcome.answer with
  | none => exact hok.unchanged ha ▸ h
  | some a =>
    have hspec := hok.spec ha
    have heffect := heffect a ha
    generalize x.call = t at hsends hspec heffect
    cases t <;> try exact hsends.elim
    all_goals cases a <;> first | exact hspec.elim | skip
    case send.sent now p s =>
      obtain ⟨rfl, rfl⟩ := hsends
      obtain ⟨-, ⟨-, -, heq⟩ | ⟨hdup, -⟩⟩ := hspec
      · exact heq ▸ h
      obtain ⟨as, l, k, hdid, hadds, hmsg, hnew⟩ := heffect hdup
      refine h.did hdid hadds fun y hy howner => ?_
      rw [hnew, hmsg] at hy
      rcases mem_cons.mp hy with rfl | hy
      · exact ⟨rfl, rfl⟩
      -- The other row is the recipient's.
      · split at hy
        · exact absurd hy not_mem_nil
        · rename_i hself
          obtain rfl := mem_singleton.mp hy
          exact absurd howner.symm hself
    case sendChat.fannedOut now p s =>
      obtain ⟨rfl, rfl⟩ := hsends
      obtain ⟨-, m, -, -, -, -, -, ⟨-, -, heq⟩ | ⟨hdup, -⟩⟩ := hspec
      · exact heq ▸ h
      obtain ⟨n, owners, delivered, as, -, -, hdel, -⟩ := heffect hdup
      refine h.did hdel.did hdel.adds fun y hy _ => ?_
      rw [hdel.rows] at hy
      obtain ⟨b, -, rfl⟩ := mem_map.mp hy
      exact ⟨rfl, rfl⟩
    case forward.forwarded =>
      obtain ⟨rfl, rfl⟩ := hsends
      obtain ⟨⟨as, hdid, hadds, -, -, hown⟩, -⟩ := heffect
      exact h.did hdid hadds hown
    case checkChatWrite.flag =>
      have hsame : x.post = x.pre := heffect
      exact hsame ▸ h

variable {R R' : Type} {G : Call → Prop} {Q : R → DB → Prop} {f : Unit → Handler R}

theorem ensures_query {q : DB → R'} {f : R' → Handler R}
    (h : ∀ d', Moves d d' → Ensures G (f (q d')) d' Q) : Ensures G (Script.query q >>= f) d Q :=
  h

theorem ensures_messageByRandomID {f : Option Message → Handler R}
    (hnone : ∀ d', Moves d d' → Ensures G (f none) d' Q)
    (hsome : ∀ d' m, Moves d d' → d'.messageByRandomID userID randomID = some m →
      Ensures G (f (some m)) d' Q) : Ensures G (messageByRandomID userID randomID >>= f) d Q := by
  unfold messageByRandomID
  split
  · exact hnone d (.refl d)
  · intro d' hd'
    change Ensures G (f (d'.messageByRandomID userID randomID)) d' Q
    cases hfound : d'.messageByRandomID userID randomID with
    | none => exact hnone d' hd'
    | some m => exact hsome d' m hd' hfound

theorem ensures_requireMember {chatID : Int}
    (h : ∀ d', Moves d d' → Ensures G (f ()) d' Q) :
    Ensures G (requireMember chatID userID >>= f) d Q := by
  intro d' hd'
  change Ensures G ((if d'.isChatMember chatID userID then pure () else Script.fail .peerIDInvalid)
    >>= f) d' Q
  split
  · exact h d' hd'
  · trivial

theorem ensures_requireDest (h : ∀ d', Moves d d' → Ensures G (f ()) d' Q) :
    Ensures G (requireDest dest userID >>= f) d Q := by
  unfold requireDest
  split
  · exact ensures_requireMember h
  · exact h d (.refl d)

theorem ensures_messagePts {localID : Int} {f : Int → Handler R}
    (h : ∀ d' pts, Moves d d' → Ensures G (f pts) d' Q) :
    Ensures G (messagePts userID localID >>= f) d Q := by
  intro d' hd'
  change Ensures G (Script.orFail .internal (d'.newMessagePts userID localID) >>= f) d' Q
  cases d'.newMessagePts userID localID with
  | none => trivial
  | some pts => exact h d' pts hd'

theorem ensures_loadDocs {env : Env} {msgs : List Message}
    {f : (Int → Option Wire.Document) → Handler R}
    (h : ∀ d' docs, Moves d d' → Ensures G (f docs) d' Q) :
    Ensures G (loadDocs env msgs >>= f) d Q :=
  fun d' hd' => h d' _ hd'

theorem ensures_exec {t : Call} {f : Outcome Reply StoreErr → Handler R}
    (ht : G t) (h : ∀ x, Recorded x → x.call = t → Ensures G (f x.outcome) x.post Q) :
    Ensures G (Script.exec t >>= f) d Q :=
  ⟨ht, fun x hx ht _ => h x hx ht⟩

theorem ensures_pure {r : R} (h : ∀ d', Moves d d' → Q r d') : Ensures G (pure r) d Q :=
  h

theorem Stored.ensures (h : Stored d userID dest randomID m) :
    Ensures G (pure (sentUpdates docs m randomID pts)) d fun ups d' =>
      Answered d' userID dest [randomID] ups :=
  ensures_pure fun _ hd' => (h.grows hd'.1).answered

theorem ensures_retryReply (h : Stored d userID dest randomID m) :
    Ensures G (retryReply docs userID randomID m) d fun ups d' =>
      Answered d' userID dest [randomID] ups :=
  ensures_messagePts fun _ _ hd' => (h.grows hd'.1).ensures

/-- The script sends to `dest` only, and answers with the messages of the random ids. -/
def Delivers (userID : Int) (dest : Dest) (randomIDs : List Int) (p : Handler (List Wire.Update))
    (d : DB) : Prop :=
  Ensures (SendsTo userID dest) p d fun ups d' => Answered d' userID dest randomIDs ups

theorem delivers_send {p : SendParams} {reply : Sent → Handler (List Wire.Update)}
    {err : Outcome Reply StoreErr → RpcErr}
    (h : ∀ d' s, Stored d' p.fromID ⟨false, p.toID⟩ p.randomID s.message →
      Delivers p.fromID ⟨false, p.toID⟩ [p.randomID] (reply s) d') :
    Delivers p.fromID ⟨false, p.toID⟩ [p.randomID] (do
      let o ← .exec (.send now p)
      match o.answer with
      | some (.sent s) => reply s
      | _ => .fail (err o)) d := by
  refine ensures_exec ⟨rfl, rfl⟩ fun x hx ht => ?_
  split
  · rename_i s ha
    have hspec := hx.1.spec ha
    have heffect := hx.2 _ ha
    rw [ht] at hspec heffect
    exact h _ s (.of_sent hspec heffect)
  · trivial

theorem delivers_sendChat {p : ChatSend} {reply : Message → Owned → Handler (List Wire.Update)}
    {err : Outcome Reply StoreErr → RpcErr}
    (h : ∀ d' m perOwner, Stored d' p.fromID ⟨true, p.chatID⟩ p.randomID m →
      Delivers p.fromID ⟨true, p.chatID⟩ [p.randomID] (reply m perOwner) d') :
    Delivers p.fromID ⟨true, p.chatID⟩ [p.randomID] (do
      let o ← .exec (.sendChat now p)
      match o.answer with
      | some (.fannedOut ⟨some m, perOwner, _⟩) => reply m perOwner
      | _ => .fail (err o)) d := by
  refine ensures_exec ⟨rfl, rfl⟩ fun x hx ht => ?_
  split
  · rename_i m perOwner dup ha
    have hspec := hx.1.spec ha
    have heffect := hx.2 _ ha
    rw [ht] at hspec heffect
    exact h _ m perOwner (.of_fannedOut hspec heffect rfl)
  · trivial

theorem ensures_sendUserMessage (e : SendEnv) (toID : Int) (text : String) (replyToMsgID : Int) :
    Delivers userID ⟨false, toID⟩ [randomID]
      (sendUserMessage e userID toID text randomID replyToMsgID) d := by
  refine ensures_messageByRandomID (fun d' _ => ?_) fun d' m _ hfound => ?_
  · dsimp only
    split
    · trivial
    · exact delivers_send fun _ _ hs => hs.ensures
  · exact ensures_retryReply (.of_found hfound)

theorem ensures_sendChatMessage (e : SendEnv) (chatID : Int) (text : String) (replyToMsgID : Int) :
    Delivers userID ⟨true, chatID⟩ [randomID]
      (sendChatMessage e userID chatID text randomID replyToMsgID) d := by
  refine ensures_requireMember fun d₁ _ => ?_
  refine ensures_messageByRandomID (fun d' _ => ?_) fun d' m _ hfound => ?_
  · dsimp only
    split
    · trivial
    · exact delivers_sendChat fun _ _ _ hm => hm.ensures
  · exact ensures_retryReply (.of_found hfound)

theorem ensures_sendUserMedia (e : SendEnv) (toID : Int) (text : String) (fileID : Int) :
    Delivers userID ⟨false, toID⟩ [randomID] (sendUserMedia e userID toID text randomID fileID) d :=
  delivers_send fun _ _ hs => ensures_loadDocs fun _ _ hd' => (hs.grows hd'.1).ensures

theorem ensures_sendChatMedia (e : SendEnv) (chatID : Int) (text : String) (fileID : Int)
    (rights : Option (List String)) :
    Delivers userID ⟨true, chatID⟩ [randomID]
      (sendChatMedia e userID chatID text randomID fileID rights) d :=
  delivers_sendChat fun _ _ _ hm => ensures_loadDocs fun _ _ hd' => (hm.grows hd'.1).ensures

theorem ensures_sendMediaFile (e : SendEnv) (text : String) (media : Upload) (duplicate : Bool) :
    Delivers userID dest [randomID]
      (sendMediaFile e userID dest text randomID media duplicate) d := by
  have hsend : ∀ fileID d', Delivers userID dest [randomID] (if dest.toChat then
      sendChatMedia e userID dest.peerID text randomID fileID media.rights
      else sendUserMedia e userID dest.peerID text randomID fileID) d' := by
    intro fileID d'
    obtain ⟨toChat, peerID⟩ := dest
    cases toChat with
    | true => exact ensures_sendChatMedia e peerID text fileID media.rights
    | false => exact ensures_sendUserMedia e peerID text fileID
  have hfile : ∀ stored d', Delivers userID dest [randomID]
    (mediaFile stored media.assembled >>= fun fileID =>
      if dest.toChat then sendChatMedia e userID dest.peerID text randomID fileID media.rights
      else sendUserMedia e userID dest.peerID text randomID fileID) d' := by
    intro stored d'
    unfold mediaFile
    split
    · exact hsend _ d'
    · exact hsend _ d'
    · trivial
  refine .bind (ensures_messageByRandomID (fun d' _ => ?_) fun d' m _ _ => ?_)
  · refine ensures_pure fun d'' _ => ?_
    split
    · trivial
    · exact hfile none d''
  · dsimp only
    split
    · trivial
    · refine ensures_pure fun d'' _ => ?_
      split
      · trivial
      · exact hfile _ d''

theorem ensures_checkMediaRights {rights : Option (List String)} {f : Bool → Handler R}
    (h : ∀ d' dup, Ensures (SendsTo userID dest) (f dup) d' Q) :
    Ensures (SendsTo userID dest) (checkMediaRights userID dest randomID rights >>= f) d Q := by
  refine .bind ?_
  unfold checkMediaRights
  split
  · refine ensures_exec trivial fun x _ _ => ?_
    split
    · exact ensures_pure fun d' _ => h d' _
    · trivial
  · exact ensures_pure fun d' _ => h d' _

theorem ensures_handleSendMedia (e : SendEnv) (text : String) (media : Upload) :
    Delivers userID dest [randomID] (handleSendMedia e userID dest text randomID media) d := by
  refine ensures_requireDest fun d₁ _ => ?_
  refine ensures_messageByRandomID (fun d' _ => ?_) fun d' m _ hfound => ?_
  · dsimp only
    split
    · trivial
    split
    · trivial
    refine ensures_checkMediaRights fun d'' dup => ?_
    split
    · trivial
    · exact ensures_sendMediaFile e text media dup
  · dsimp only
    split
    · trivial
    · have hstored : Stored d' userID dest randomID m := .of_found hfound
      refine ensures_messagePts fun d₂ pts hd₂ => ensures_loadDocs fun d₃ docs hd₃ => ?_
      exact ((hstored.grows hd₂.1).grows hd₃.1).ensures

def AllStored (d : DB) (userID : Int) (dest : Dest) (randomIDs : List Int)
    (ms : List Message) : Prop :=
  List.Forall₂ (Stored d userID dest) randomIDs ms

theorem AllStored.grows {ms : List Message}
    (h : AllStored d userID dest randomIDs ms) (hg : Grows d d') :
    AllStored d' userID dest randomIDs ms :=
  h.imp fun _ _ hm => hm.grows hg

theorem ensures_storedMessages (dest : Dest) (randomIDs : List Int) :
    Ensures G (storedMessages userID randomIDs) d fun found d' =>
      ∀ ms, found = some ms → AllStored d' userID dest randomIDs ms := by
  induction randomIDs generalizing d with
  | nil =>
    refine ensures_pure fun d' _ ms hms => ?_
    cases hms
    exact .nil
  | cons r rs ih =>
    refine ensures_messageByRandomID (fun d' _ => ?_) fun d' m _ hfound => ?_
    · exact ensures_pure fun d'' _ ms hms => nomatch hms
    · have hstored : Stored d' userID dest r m := .of_found hfound
      refine .bind (ih.framed.mono fun found d₁ hfound' => ensures_pure fun d₂ hd₂ ms hms => ?_)
      obtain ⟨rest, hrest, rfl⟩ := Option.map_eq_some_iff.mp hms
      exact .cons ((hstored.grows hfound'.1.1).grows hd₂.1) ((hfound'.2 rest hrest).grows hd₂.1)

theorem ensures_atTheirPts (ms : List Message) :
    Ensures G (atTheirPts userID ms) d fun fs _ => fs.map (·.message) = ms := by
  induction ms generalizing d with
  | nil => exact ensures_pure fun _ _ => rfl
  | cons m ms ih =>
    refine ensures_messagePts fun d' pts _ => .bind (ih.mono fun fs d'' hfs => ?_)
    exact ensures_pure fun _ _ => by rw [map_cons, hfs]

theorem ensures_forwardSources {peerType : PeerType} (ids : List Int) :
    Ensures G (forwardSources userID peerType peerID ids) d fun _ _ => True := by
  induction ids generalizing d with
  | nil => exact ensures_pure fun _ _ => trivial
  | cons id ids ih =>
    refine ensures_query fun d' _ => ?_
    cases d'.messageByOwnerLocal userID id with
    | none => trivial
    | some m =>
      dsimp only
      split
      · trivial
      · exact .bind (ih.mono fun _ _ _ => ensures_pure fun _ _ => trivial)

theorem ensures_sourcesOf (ids : List Int) (source : Source) :
    Ensures G (sourcesOf userID ids source) d fun _ _ => True := by
  unfold sourcesOf
  split
  · exact ensures_forwardSources ids
  · exact ensures_pure fun _ _ => trivial
  · trivial

theorem ensures_forwardReply (e : SendEnv)
    (h : AllStored d userID dest randomIDs (messages.map (·.message))) :
    Ensures G (forwardReply e messages randomIDs) d fun ups d' =>
      Answered d' userID dest randomIDs ups := by
  refine ensures_loadDocs fun d' docs hd' => ensures_pure fun d'' hd'' => ?_
  exact ⟨docs, messages, List.forall₂_map_right_iff.mp ((h.grows hd'.1).grows hd''.1), rfl⟩

theorem ensures_handleForwardMessages (e : SendEnv) (source : Source) (ids randomIDs : List Int) :
    Delivers userID dest randomIDs
      (handleForwardMessages e userID dest source ids randomIDs) d := by
  unfold handleForwardMessages
  split
  · trivial
  split
  · trivial
  refine .bind ((ensures_storedMessages dest randomIDs).mono fun found d₁ hfound => ?_)
  split
  · rename_i ms
    refine .bind ((ensures_atTheirPts ms).framed.mono fun fs d₂ hfs => ?_)
    exact ensures_forwardReply e (hfs.2 ▸ (hfound ms rfl).grows hfs.1.1)
  · split
    · trivial
    refine ensures_requireDest fun d₂ _ => .bind ?_
    refine (ensures_sourcesOf ids source).mono fun sources d₃ _ => ?_
    refine ensures_exec ⟨rfl, rfl⟩ fun x hx ht => ?_
    split
    · rename_i perOwner messages ha
      have hspec := hx.1.spec ha
      have heffect := hx.2 _ ha
      rw [ht] at hspec heffect
      exact ensures_forwardReply e (List.forall₂_map_right_iff.mpr
        (answered_of_forwarded hspec heffect))
    · trivial

/-! ## The replies -/

def messageIDs (ups : List Wire.Update) : List (Int × Int) :=
  ups.filterMap fun
    | .messageID id randomID => some (id, randomID)
    | _ => none

def peerOf : Wire.Message → Wire.Peer
  | .message _ _ peerID .. => peerID
  | .service _ _ peerID .. => peerID

def newMessages (ups : List Wire.Update) : List (Int × Wire.Peer) :=
  ups.filterMap fun
    | .newMessage m _ => some (m.id, peerOf m)
    | _ => none

/-- The reply has one message for each random id, the sender's row under it, with the row's peer;
and those of the random ids in `own` are in the requested dialog. -/
structure AnswersFor (w : DB) (userID : Int) (dest : Dest) (randomIDs : List Int) (own : Int → Prop)
    (ups : List Wire.Update) : Prop where
  ids : (messageIDs ups).map Prod.snd = randomIDs
  messages : (newMessages ups).map Prod.fst = (messageIDs ups).map Prod.fst
  stored : ∀ x ∈ messageIDs ups, ∃ m ∈ w.messages, m.key = (userID, x.1) ∧ m.randomID = x.2 ∧
    (x.1, peerToTL m.peerType m.peerID) ∈ newMessages ups ∧ (own x.2 → dest.holds m)

theorem messageToTL_id_peer (m : Message) (docs : Int → Option Wire.Document) :
    (messageToTL m [] docs []).id = m.localID ∧
      peerOf (messageToTL m [] docs []) = peerToTL m.peerType m.peerID := by
  unfold messageToTL
  split <;> exact ⟨rfl, rfl⟩

section Replies

variable {w : DB} {randomIDs : List Int} {ups : List Wire.Update}
  {pairs : List (ForwardedMessage × Int)}

theorem messageIDs_sent :
    messageIDs (pairs.flatMap fun x => sentUpdates docs x.1.message x.2 x.1.pts) =
      pairs.map fun x => (x.1.message.localID, x.2) := by
  induction pairs with
  | nil => rfl
  | cons x xs ih => exact congrArg (List.cons _) ih

theorem newMessages_sent :
    newMessages (pairs.flatMap fun x => sentUpdates docs x.1.message x.2 x.1.pts) =
      pairs.map fun x => (x.1.message.localID,
        peerToTL x.1.message.peerType x.1.message.peerID) := by
  induction pairs with
  | nil => rfl
  | cons x xs ih =>
    obtain ⟨hid, hpeer⟩ := messageToTL_id_peer x.1.message docs
    rw [map_cons, ← hid, ← hpeer]
    exact congrArg (List.cons _) ih

/-- A reply of stored messages answers for the random ids that the sender used for the destination
only. -/
theorem Answered.answersFor (h : Answered w userID dest randomIDs ups)
    (hown : ∀ randomID ≠ 0, own randomID → KeptIn userID dest randomID w) :
    AnswersFor w userID dest randomIDs own ups := by
  obtain ⟨docs, messages, hstored, rfl⟩ := h
  have hsnd : (messages.zip randomIDs).map Prod.snd = randomIDs :=
    map_snd_zip hstored.length_eq.le
  refine ⟨?_, ?_, fun x hx => ?_⟩
  · rw [messageIDs_sent, map_map]
    exact hsnd
  · rw [newMessages_sent, messageIDs_sent, map_map, map_map]
    rfl
  rw [messageIDs_sent] at hx
  obtain ⟨z, hz, rfl⟩ := mem_map.mp hx
  obtain ⟨⟨m, hm, hfrozen⟩, howner, htag, huntagged⟩ := List.forall₂_zip hstored.flip hz
  have hkept := Message.kept hfrozen
  have hm_local : m.localID = z.1.message.localID := hkept.localID
  have hm_random : m.randomID = z.1.message.randomID := hkept.randomID
  have hm_type : m.peerType = z.1.message.peerType := hkept.peerType
  have hm_peer : m.peerID = z.1.message.peerID := hkept.peerID
  refine ⟨m, hm, Prod.ext (hkept.ownerID.trans howner) hm_local, hm_random.trans htag, ?_,
    fun hz' => ?_⟩
  · rw [newMessages_sent, hm_type, hm_peer]
    exact mem_map_of_mem
      (f := fun x => (x.1.message.localID, peerToTL x.1.message.peerType x.1.message.peerID)) hz
  · by_cases h0 : z.2 = 0
    · obtain ⟨htype, hpeer⟩ := huntagged h0
      exact ⟨hm_type.trans htype, hm_peer.trans hpeer⟩
    · exact hown z.2 h0 hz' m hm (hkept.ownerID.trans howner) (hm_random.trans htag)

end Replies

inductive SendRequest where
  | message (text : String) (randomID replyToMsgID : Int)
  | media (text : String) (randomID : Int) (upload : Upload)
  | forward (source : Source) (ids randomIDs : List Int)

namespace SendRequest

def randomIDs : SendRequest → List Int
  | .message _ randomID _ => [randomID]
  | .media _ randomID _ => [randomID]
  | .forward _ _ randomIDs => randomIDs

def handle (e : SendEnv) (userID : Int) (dest : Dest) : SendRequest → Handler (List Wire.Update)
  | .message text randomID replyToMsgID =>
    handleSendMessage e userID dest text randomID replyToMsgID
  | .media text randomID upload => handleSendMedia e userID dest text randomID upload
  | .forward source ids randomIDs => handleForwardMessages e userID dest source ids randomIDs

theorem ensures_handle (e : SendEnv) (userID : Int) (dest : Dest) (req : SendRequest) (d : DB) :
    Delivers userID dest req.randomIDs (req.handle e userID dest) d := by
  cases req with
  | message text randomID replyToMsgID =>
    obtain ⟨toChat, peerID⟩ := dest
    cases toChat with
    | true => exact ensures_sendChatMessage e peerID text replyToMsgID
    | false => exact ensures_sendUserMessage e peerID text replyToMsgID
  | media text randomID upload => exact ensures_handleSendMedia e text upload
  | forward source ids randomIDs => exact ensures_handleForwardMessages e source ids randomIDs

end SendRequest

theorem AnswersFor.grows {ups : List Wire.Update} (h : AnswersFor d userID dest randomIDs own ups)
    (hg : Grows d d') : AnswersFor d' userID dest randomIDs own ups := by
  refine ⟨h.ids, h.messages, fun x hx => ?_⟩
  obtain ⟨m, hm, hkey, hrandom, hnew, hholds⟩ := h.stored x hx
  obtain ⟨m', hm', hfrozen⟩ := hg.row hm
  have hkept := Message.kept hfrozen
  have hpeer : m'.peerID = m.peerID := hkept.peerID
  refine ⟨m', hm', hkept.key.trans hkey, hkept.randomID.trans hrandom, ?_, fun hx' => ?_⟩
  · rwa [hkept.peerType, hpeer]
  · exact ⟨hkept.peerType.trans (hholds hx').1, hpeer.trans (hholds hx').2⟩

/-- The call stored a message of the sender's under the random id in another dialog. -/
def StoresElsewhere (userID : Int) (dest : Dest) (randomID : Int) (x : StoreRecord) :
    Prop :=
  ∃ m ∈ x.post.messages, m.ownerID = userID ∧ m.randomID = randomID ∧ ¬dest.holds m ∧
    ∀ m' ∈ x.pre.messages, m'.key ≠ m.key

/-- In every interleaving, the reply to a send or a forward has one message for each random id, the
sender's row under it; and it is in the requested dialog if no other call stored one under the
random id elsewhere. -/
theorem sends_answer (h : Reached states files c) {e : SendEnv} {userID : Int} {dest : Dest}
    {req : SendRequest} {others : List StoreRecord} {ups : List Wire.Update} {d : DB}
    (hserved : Served states files c (req.handle e userID dest) others ups d) :
    AnswersFor c.db userID dest req.randomIDs
      (fun randomID => randomID = 0 ∨ ∀ x ∈ others, ¬StoresElsewhere userID dest randomID x)
      ups := by
  obtain ⟨hanswered, hgrows, hkept⟩ := hserved.spec h (req.ensures_handle e userID dest _)
  refine (hanswered.answersFor fun randomID h0 hown => ?_).grows hgrows
  have hothers := hown.resolve_left h0
  refine hkept _ (fun x => KeptIn.sendsTo) (fun x hx hrecorded hpre m hm howner hrandom => ?_)
    fun m hm => absurd hm not_mem_nil
  -- A row of another call's was there before, or it is not stored elsewhere.
  by_cases hold : ∃ m' ∈ x.pre.messages, m'.key = m.key
  · obtain ⟨m', hm', hkey⟩ := hold
    obtain ⟨m'', hm'', hfrozen⟩ := hrecorded.1.2.2.1.row hm'
    have hkept := Message.kept hfrozen
    obtain rfl := hrecorded.1.2.1.row_of_key hm'' hm (hkept.key.trans hkey)
    obtain ⟨htype, hpeer⟩ := hpre m' hm' (hkept.ownerID.symm.trans howner)
      (hkept.randomID.symm.trans hrandom)
    exact ⟨hkept.peerType.trans htype, hkept.peerID.trans hpeer⟩
  · by_contra hne
    exact hothers x hx ⟨m, hm, howner, hrandom, hne, fun m' hm' hkey => hold ⟨m', hm', hkey⟩⟩

/-- The retry of a message to 2. -/
theorem sends_answer_retry : ∃ others ups d, Served two [] (afterHi [])
      ((SendRequest.message "hi" 7 0).handle ⟨20, false, ⟨0, 0, 1, fun _ _ _ => 0⟩⟩ 1 ⟨false, 2⟩)
        others ups d ∧ others.map (·.call) = [.send 10 ⟨1, 2, "hi", 7, 0, 0⟩] ∧
      messageIDs ups = [(1, 7)] ∧
      ∃ m ∈ (afterHi []).db.messages, m.key = (1, 1) ∧ (⟨false, 2⟩ : Dest).holds m := by
  have hserved := Script.plays_of_play [true, false, false]
    ((SendRequest.message "hi" 7 0).handle ⟨20, false, ⟨0, 0, 1, fun _ _ _ => 0⟩⟩ 1 ⟨false, 2⟩)
    (.initial two []) (afterHi []).log rfl
  obtain ⟨m, hm, hkey, -, -, hholds⟩ :=
    (sends_answer reached_serialRun hserved).stored (1, 7) mem_cons_self
  refine ⟨_, _, _, hserved, rfl, rfl, m, hm, hkey, hholds (.inr ?_)⟩
  unfold StoresElsewhere Dest.holds
  decide +kernel

/-- 1 sends to 2 under a random id, and a message to 3 under the same random id is answered with the
message to 2. -/
theorem send_answered_from_other_dialog : ∃ c, Reached three [] c ∧ ∃ others ups d,
      Served three [] c
        ((SendRequest.message "to 3" 7 0).handle ⟨20, false, ⟨0, 0, 1, fun _ _ _ => 0⟩⟩ 1
          ⟨false, 3⟩)
        others ups d ∧
      newMessages ups = [(1, .user 2)] ∧ ¬AnswersFor c.db 1 ⟨false, 3⟩ [7] (fun _ => True) ups := by
  have hreached : Reached three [] (serialRun three [] [.send 10 ⟨1, 2, "to 2", 7, 0, 0⟩]) :=
    reached_serialRun
  refine ⟨_, hreached, _, _, _, Script.plays_of_play [true, false, false] _ _ _ rfl, rfl,
    fun hanswer => ?_⟩
  obtain ⟨m, hm, hkey, -, -, hholds⟩ := hanswer.stored (1, 7) mem_cons_self
  have hrows : ∀ m ∈ (serialRun three [] [.send 10 ⟨1, 2, "to 2", 7, 0, 0⟩]).db.messages,
      m.key = (1, 1) → m.peerID ≠ 3 := by decide +kernel
  exact hrows m hm hkey (hholds trivial).2

end TelegramServer.Api
