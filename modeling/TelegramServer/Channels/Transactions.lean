import TelegramServer.Channels.Locks
import TelegramServer.Store.Chats

/-!
# Channel transactions

Creating a channel, posting, the rights mutations, slow mode, the public username, leaving
and the three ways in. Every time that a transaction reads from a clock is an argument of
its call, and so are the ids that a creation draws.
-/

namespace TelegramServer.Channels

open Tx

inductive ChannelErr where
  | messageInvalid
  | notMember
  | ptsUnknown
  | chatWriteForbidden
  | slowModeWait (seconds : Int)
  | inviteInvalid
  | channelFull
  | tooManyChannels
  | usernameOccupied
  | usernameFloodWait
  /-- The rate limiter of the handler. -/
  | floodWait
  /-- No id could be drawn that was free. -/
  | channelID
  /-- A statement that has to return a row returned none. -/
  | noRows
  | uniqueViolation
  deriving DecidableEq

abbrev Body (A : Type) := Prog DB Lock Write Empty ChannelErr A

structure Caps where
  maxChannelParticipants : Nat := 10000
  maxChannelsPerUser : Nat := 500

/-- A `SELECT` of one row under its lock. -/
def rowForUpdate {A : Type} (l : Lock) (q : DB → Option A) : Body (Option A) :=
  .queryForUpdate (fun d => if (q d).isSome then [l] else []) q

/-- An `UPDATE` or `DELETE` by primary key. It waits for the row's lock and then looks at the row
again: where the row is gone it changes nothing. -/
def updateRow {A B : Type} (l : Lock) (row : DB → Option A) (o : Write) (q : DB → B) : Body B :=
  .stmt (fun d => if (row d).isSome then [l] else []) (fun d => if (row d).isSome then [o] else [])
    fun d => .ret (q d)

def rowCount {A : Type} (row : Option A) : Nat := if row.isSome then 1 else 0

def channelParticipantByUser (channel user : Int) : Body (Option ChannelParticipant) :=
  .query (·.channelParticipantByUser channel user)

def lockChannel (channel : Int) : Body (Option Channel) :=
  rowForUpdate (.channel channel) (·.channelByID channel)

def channelStateForUpdate (channel : Int) : Body (Option ChannelState) :=
  rowForUpdate (.state channel) (·.channelState channel)

def ensureChannelState (channel : Int) : Body Unit :=
  .stmt (fun d => if (d.channelState channel).isSome then [] else [.state channel])
    (fun d => if (d.channelState channel).isSome then [] else [.ensureChannelState channel])
    fun _ => .ret ()

def bumpChannelState (channel : Int) : Body (Int × Int) := do
  let s ← updateRow (.state channel) (·.channelState channel) (.bumpChannelState channel)
    (·.channelState channel)
  let s ← .orFail .noRows s
  pure (s.pts + 1, s.nextLocalID)

def updateChannelPostMarker (channel user at_ : Int) : Body Nat :=
  updateRow (.participant channel user) (·.channelParticipantByUser channel user)
    (.updateChannelPostMarker channel user at_)
    fun d => rowCount (d.channelParticipantByUser channel user)

def updateChannelParticipantRole (channel user role : Int) : Body Nat :=
  updateRow (.participant channel user) (·.channelParticipantByUser channel user)
    (.updateChannelParticipantRole channel user role)
    fun d => rowCount (d.channelParticipantByUser channel user)

def updateChannelParticipantBan (channel user : Int) (bannedUntil : Option Int) : Body Nat :=
  updateRow (.participant channel user) (·.channelParticipantByUser channel user)
    (.updateChannelParticipantBan channel user bannedUntil)
    fun d => rowCount (d.channelParticipantByUser channel user)

def deleteChannelParticipant (channel user : Int) : Body Nat :=
  updateRow (.participant channel user) (·.channelParticipantByUser channel user)
    (.deleteChannelParticipant channel user)
    fun d => rowCount (d.channelParticipantByUser channel user)

def insertChannelParticipantIfAbsent (p : ChannelParticipant) : Body Nat :=
  .stmt (fun d => if d.isChannelMember p.channelID p.userID then []
      else [.participant p.channelID p.userID])
    (fun d => if d.isChannelMember p.channelID p.userID then []
      else [.insertChannelParticipantIfAbsent p])
    fun d => .ret (if d.isChannelMember p.channelID p.userID then 0 else 1)

def insertRow {A : Type} (l : Lock) (row : DB → Option A) (o : Write) : Body Unit := do
  let inserted ← .stmt (fun d => if (row d).isSome then [] else [l])
    (fun d => if (row d).isSome then [] else [o]) fun d => .ret (row d).isNone
  if inserted then pure () else .fail .uniqueViolation

def insertChannelState (channel : Int) : Body Unit :=
  insertRow (.state channel) (·.channelState channel) (.ensureChannelState channel)

def insertChannelParticipant (p : ChannelParticipant) : Body Unit :=
  insertRow (.participant p.channelID p.userID) (·.channelParticipantByUser p.channelID p.userID)
    (.insertChannelParticipantIfAbsent p)

def setChannelUsername (channel : Int) (username : Option String) : Body Nat :=
  updateRow (.channel channel) (·.channelByID channel) (.setChannelUsername channel username)
    fun d => rowCount (d.channelByID channel)

def newChannelPostPts (channel localID : Int) : Body Int := do
  let pts ← .query (·.newChannelPostPts channel localID)
  .orFail .ptsUnknown pts

def lockOwners (ids : List Int) : Body Unit :=
  .lockAll ((Store.ascendingUnique ids).map .account)

/-! ## Posting -/

/-- The clocks that a post reads: the start of its transaction, `time.Now` of the early and of the
authoritative check, and `clock_timestamp` of the slow-mode check and of the marker. -/
structure PostTimes where
  now : Int
  early : Int
  checked : Int
  slow : Int
  marked : Int
  deriving DecidableEq

structure Post where
  channelID : Int
  fromID : Int
  text : String
  randomID : Int := 0
  fileID : Option Int := none
  replyToMsgID : Int := 0
  deriving DecidableEq

def checkPostRights (channel user now : Int) : Body Int := do
  let row ← channelParticipantByUser channel user
  let row ← .orFail .notMember row
  if row.banned now then .fail .notMember
  else do
    let megagroup ← .query (·.channelMegagroup channel)
    let megagroup ← .orFail .notMember megagroup
    -- Broadcast: posting is an admin right. Megagroup: any unbanned participant.
    if megagroup = false ∧ row.role < 1 then .fail .notMember
    else pure row.role

def slowModeWait (slowmodeSeconds checkedAt last : Int) : Option Int :=
  let remaining := slowmodeSeconds * second - (checkedAt - last)
  if 0 < remaining then some ((remaining + second - 1) / second) else none

def DB.lastPostAt (d : DB) (p : ChannelParticipant) : Option Int :=
  match p.lastPostAt, d.postMarker p.channelID p.userID with
  | some a, some b => some (max a b)
  | some a, none => some a
  | none, b => b

/-- `ChannelSlowModePostState`: the interval and the user's last post. -/
def DB.slowModePostState (d : DB) (channel user : Int) : Option (Int × Option Int) := do
  let c ← d.channelByID channel
  let p ← d.channelParticipantByUser channel user
  pure (c.slowmodeSeconds, d.lastPostAt p)

def checkSlowMode (channel user at_ : Int) : Body Unit := do
  let state ← .query (·.slowModePostState channel user)
  let (slowmodeSeconds, last) ← .orFail .notMember state
  if 0 < slowmodeSeconds then
    match last.bind (slowModeWait slowmodeSeconds at_) with
    | some seconds => .fail (.slowModeWait seconds)
    | none => pure ()
  else pure ()

/-- The channel's default restrictions and slow mode, for a poster with this role. -/
def checkPostLimits (times : PostTimes) (p : Post) (role : Int) : Body Unit := do
  let channel ← .query (·.channelByID p.channelID)
  let channel ← .orFail .notMember channel
  if channel.megagroup then
    if Store.defaultRestricted channel.defaultBannedRights (role ≥ channelRoleAdmin)
        p.fileID.isSome none then
      .fail .chatWriteForbidden
    else if role = channelRoleMember then checkSlowMode p.channelID p.fromID times.slow
    else pure ()
  else pure ()

/-- The post is stored, or an earlier one with the same random id is found. -/
structure Posted where
  message : ChannelMessage
  pts : Int
  dup : Bool
  deriving DecidableEq

def insertPost (times : PostTimes) (p : Post) : Body (Int × Int) := do
  let (pts, localID) ← bumpChannelState p.channelID
  .exec_ (.insertChannelMessage {
    channelID := p.channelID, localID, fromID := p.fromID, date := times.now, message := p.text
    randomID := p.randomID, fileID := p.fileID
    replyToMsgID := if 0 < p.replyToMsgID then some (Store.int32 p.replyToMsgID) else none })
  .exec_ (.insertChannelEvent { channelID := p.channelID, pts, type := .newMessage, localID })
  pure (pts, localID)

def checkReply (p : Post) : Body Unit := do
  if 0 < p.replyToMsgID then
    let found ← .query (·.channelPostExistsActive p.channelID p.replyToMsgID)
    if found then pure () else .fail .messageInvalid
  else pure ()

def markPost (times : PostTimes) (p : Post) : Body Unit := do
  let n ← updateChannelPostMarker p.channelID p.fromID times.marked
  if n = 1 then pure () else .fail .notMember

/-- `postChannelMessage` behind the lookup of the random id. -/
def storePost (times : PostTimes) (p : Post) (checkRights : Bool) (role : Int) :
    Body (Finish Posted) := do
  if checkRights then checkPostLimits times p role else pure ()
  checkReply p
  let (pts, localID) ← insertPost times p
  if checkRights then markPost times p else pure ()
  let stored ← .query (·.channelMessageByLocal p.channelID localID)
  let stored ← .orFail .noRows stored
  pure (.commit { message := stored, pts, dup := false })

def postChannelMessage (times : PostTimes) (p : Post) (checkRights : Bool) :
    Body (Finish Posted) := do
  if p.channelID = 0 ∨ p.fromID = 0 then .fail .messageInvalid
  else do
    let _ ← if checkRights then checkPostRights p.channelID p.fromID times.early else pure 0
    ensureChannelState p.channelID
    let state ← channelStateForUpdate p.channelID
    let _ ← .orFail .noRows state
    let role ← if checkRights then checkPostRights p.channelID p.fromID times.checked else pure 0
    let existing ←
      if p.randomID ≠ 0 then .query (·.channelMessageByRandomID p.channelID p.randomID)
      else pure none
    match existing with
    | some m => do
        let pts ← newChannelPostPts p.channelID m.localID
        pure (.rollback { message := m, pts, dup := true })
    | none => storePost times p checkRights role

def postChannelMessageAs (times : PostTimes) (p : Post) : Body (Finish Posted) :=
  postChannelMessage times p true

/-- `messages.sendMessage` to a channel: a retry is looked up before the rate limiter, whose verdict
is `limited`, and before the transaction. -/
def sendChannelMessage (times : PostTimes) (limited : Bool) (p : Post) : Body (Finish Posted) := do
  let existing ←
    if p.randomID ≠ 0 then .query (·.channelMessageByRandomID p.channelID p.randomID)
    else pure none
  match existing with
  | some m => do
      let pts ← newChannelPostPts p.channelID m.localID
      pure (.rollback { message := m, pts, dup := true })
  | none => if limited then .fail .floodWait else postChannelMessageAs times p

def minChannelID : Int := 2147483648
def maxChannelID : Int := 997852516352
def channelIDSpan : Int := maxChannelID - minChannelID + 1
def channelIDAttempts : Nat := 8

def randomChannelID (draw : Int) : Int := minChannelID + draw % channelIDSpan

/-- Draws again while the id is taken. The draws end where the source of them fails. -/
def insertChannel (c : Channel) : List Int → Body Channel
  | [] => .fail .channelID
  | draw :: draws => do
      let c' := { c with id := randomChannelID draw }
      let inserted ← .stmt (fun d => if (d.channelByID c'.id).isSome then [] else [.channel c'.id])
        (fun d => if (d.channelByID c'.id).isSome then [] else [.insertChannel c'])
        fun d => .ret (d.channelByID c'.id).isNone
      if inserted then pure c' else insertChannel c draws

structure Created where
  channel : Channel
  message : ChannelMessage
  pts : Int
  deriving DecidableEq

def createChannel (caps : Caps) (now creator : Int) (title : String) (megagroup : Bool)
    (draws : List Int) : Body (Finish Created) := do
  lockOwners [creator]
  let joined ← .query (·.countChannelsForUser creator)
  if caps.maxChannelsPerUser ≤ joined then .fail .tooManyChannels
  else do
    let channel ← insertChannel { id := 0, title, creatorID := creator, date := now, megagroup }
      (draws.take channelIDAttempts)
    insertChannelState channel.id
    insertChannelParticipant
      { channelID := channel.id, userID := creator, role := channelRoleCreator }
    let (pts, localID) ← bumpChannelState channel.id
    .exec_ (.insertChannelMessage {
      channelID := channel.id, localID, fromID := creator, date := now, message := title
      action := .create })
    .exec_ (.insertChannelEvent { channelID := channel.id, pts, type := .newMessage, localID })
    let stored ← .query (·.channelMessageByLocal channel.id localID)
    let stored ← .orFail .noRows stored
    pure (.commit { channel, message := stored, pts })

/-- The caller's and the target's rows, read under the `channels` row lock. -/
def beginChannelMutation (now channel caller target : Int) :
    Body (ChannelParticipant × ChannelParticipant) := do
  if caller = target then .fail .notMember
  else do
    let member ← .query (·.isChannelMember channel caller)
    if member = false then .fail .notMember
    else do
      let locked ← lockChannel channel
      let _ ← .orFail .notMember locked
      let callerRow ← channelParticipantByUser channel caller
      let callerRow ← .orFail .notMember callerRow
      if callerRow.banned now then .fail .notMember
      else do
        let targetRow ← channelParticipantByUser channel target
        let targetRow ← .orFail .notMember targetRow
        pure (callerRow, targetRow)

def setChannelRole (now channel caller target role : Int) : Body (Finish Unit) := do
  if role ≠ channelRoleMember ∧ role ≠ channelRoleAdmin then .fail .notMember
  else do
    let (callerRow, targetRow) ← beginChannelMutation now channel caller target
    if callerRow.role ≠ channelRoleCreator ∨ targetRow.role = channelRoleCreator ∨
        targetRow.role = role then
      .fail .notMember
    else do
      let n ← updateChannelParticipantRole channel target role
      if n = 0 then .fail .notMember
      else pure (.commit ())

def mayBan (callerRole targetRole : Int) : Bool :=
  if targetRole = channelRoleCreator then false
  else callerRole = channelRoleCreator ∨
    callerRole = channelRoleAdmin ∧ targetRole = channelRoleMember

def banValue (until_ : Option Int) (forever : Bool) : Option Int :=
  if forever then some bannedForever else until_

def setChannelBan (now channel caller target : Int) (until_ : Option Int) (forever : Bool) :
    Body (Finish Unit) := do
  let (callerRow, targetRow) ← beginChannelMutation now channel caller target
  if mayBan callerRow.role targetRow.role = false then .fail .notMember
  else do
    let n ← updateChannelParticipantBan channel target (banValue until_ forever)
    if n = 0 then .fail .notMember
    else pure (.commit ())

def leaveChannel (now channel user : Int) : Body (Finish Bool) := do
  let locked ← lockChannel channel
  match locked with
  | none => pure (.rollback false)
  | some _ => do
      let row ← channelParticipantByUser channel user
      match row with
      | none => pure (.rollback false)
      | some row => do
          if row.banned now = false then
            let _ ← deleteChannelParticipant channel user
          pure (.commit true)

def setChannelSlowMode (now channel caller seconds : Int) : Body (Finish (Channel × Bool)) := do
  let member ← .query (·.isChannelMember channel caller)
  if member = false then .fail .notMember
  else do
    let locked ← lockChannel channel
    let locked ← .orFail .notMember locked
    let row ← channelParticipantByUser channel caller
    let row ← .orFail .notMember row
    if locked.megagroup = false ∨ row.role < channelRoleAdmin ∨ row.banned now then
      .fail .notMember
    else if locked.slowmodeSeconds = seconds then pure (.commit (locked, false))
    else do
      let found ← updateRow (.channel channel) (·.channelByID channel)
        (.setChannelSlowMode channel seconds) (·.channelByID channel)
      let found ← .orFail .noRows found
      pure (.commit ({ found with slowmodeSeconds := seconds }, true))

def channelUsernameChangeLimit : Nat := 2
def channelUsernameChangeWindow : Int := 24 * 3600 * second

/-- The clocks that an edit reads: the start of its transaction, and `time.Now` of the rights check
and of the cutoff. -/
structure EditTimes where
  now : Int
  checked : Int
  pruned : Int
  deriving DecidableEq

/-- `DELETE` of these rows, one after the other, where the owner still has them. -/
def releaseUsernames (owner : HandleOwner) : List String → Body Unit
  | [] => pure ()
  | handle :: handles => do
      updateRow (.username handle)
        (fun d => (d.usernameByHandle handle).filter (·.owner = owner)) (.releaseUsername handle)
        fun _ => ()
      releaseUsernames owner handles

def releaseUsernameByOwner (owner : HandleOwner) : Body Unit := do
  let handles ← .query (·.handlesOf owner)
  releaseUsernames owner handles

/-- The handle is lower-cased by the caller and again by the statement. -/
def claimUsername (handle : String) (owner : HandleOwner) : Body Unit := do
  let claimed ← .stmt (fun _ => [.username handle])
    (fun d => if (d.usernameByHandle handle).isSome then [] else [.claimUsername ⟨handle, owner⟩])
    fun d => .ret (d.usernameByHandle handle).isNone
  if claimed then pure () else .fail .usernameOccupied

def replaceChannelUsername (channel : Int) (username : String) : Body Unit := do
  releaseUsernameByOwner (.channel channel)
  if username = "" then
    let _ ← setChannelUsername channel none
  else
    let normalized := username.toLower
    claimUsername normalized (.channel channel)
    let _ ← setChannelUsername channel (some normalized)

def editChannelUsername (times : EditTimes) (channel caller : Int) (username : String) :
    Body (Finish Unit) := do
  .lock (.account channel)
  let locked ← lockChannel channel
  let _ ← .orFail .notMember locked
  let row ← channelParticipantByUser channel caller
  let row ← .orFail .notMember row
  if row.role < 1 ∨ row.banned times.checked then .fail .notMember
  else do
    let cutoff := times.pruned - channelUsernameChangeWindow
    .exec_ (.deleteExpiredChannelUsernameChanges channel cutoff)
    replaceChannelUsername channel username
    -- A change over the limit is rolled back, and so is not counted.
    .exec_ (.insertChannelUsernameChange channel times.now)
    let count ← .query (·.countChannelUsernameChanges channel cutoff)
    if channelUsernameChangeLimit < count then .fail .usernameFloodWait
    else pure (.commit ())

/-! ## Admission -/

def admitUser (caps : Caps) (channelID : Int) (state : ChannelState) (user : Int) :
    Body ChannelParticipant := do
  let seats ← .query (·.countChannelParticipants channelID)
  if caps.maxChannelParticipants ≤ seats then .fail .channelFull
  else do
    lockOwners [user]
    let joined ← .query (·.countChannelsForUser user)
    if caps.maxChannelsPerUser ≤ joined then .fail .tooManyChannels
    else do
      let p : ChannelParticipant := { channelID, userID := user, joinPts := state.pts }
      let n ← insertChannelParticipantIfAbsent p
      if n = 0 then
        let row ← channelParticipantByUser channelID user
        .orFail .noRows row
      else pure p

def joinChannelByInvite (caps : Caps) (hash : String) (user : Int) :
    Body (Finish (Channel × ChannelParticipant)) := do
  let invite ← rowForUpdate (.invite hash) (·.channelInviteByHash hash)
  let invite ← .orFail .inviteInvalid invite
  let state ← channelStateForUpdate invite.channelID
  let state ← .orFail .inviteInvalid state
  let channel ← .query (·.channelByID invite.channelID)
  let channel ← .orFail .noRows channel
  let row ← channelParticipantByUser invite.channelID user
  match row with
  | some row => pure (.commit (channel, row))
  | none => do
      let row ← admitUser caps invite.channelID state user
      pure (.commit (channel, row))

def joinChannelByUsername (caps : Caps) (now channelID user : Int) :
    Body (Finish (Channel × ChannelParticipant)) := do
  let state ← channelStateForUpdate channelID
  let state ← .orFail .notMember state
  let channel ← .query (·.channelByID channelID)
  let channel ← .orFail .notMember channel
  if channel.username.getD "" = "" then .fail .notMember
  else do
    let row ← channelParticipantByUser channelID user
    match row with
    | some row =>
      if row.banned now then .fail .notMember
      else pure (.commit (channel, row))
    | none => do
        let row ← admitUser caps channelID state user
        pure (.commit (channel, row))

def addTargets (caps : Caps) (channelID : Int) (state : ChannelState) :
    List Int → List Int → Nat → List Int → Body (List Int)
  | [], _, _, added => pure added
  | target :: targets, seen, seats, added => do
      if target ∈ seen then addTargets caps channelID state targets seen seats added
      else do
        let row ← channelParticipantByUser channelID target
        if row.isSome ∨ caps.maxChannelParticipants ≤ seats then
          addTargets caps channelID state targets (target :: seen) seats added
        else do
          let joined ← .query (·.countChannelsForUser target)
          if caps.maxChannelsPerUser ≤ joined then
            addTargets caps channelID state targets (target :: seen) seats added
          else do
            let n ← insertChannelParticipantIfAbsent
              { channelID, userID := target, joinPts := state.pts }
            if n = 0 then addTargets caps channelID state targets (target :: seen) seats added
            else
              addTargets caps channelID state targets (target :: seen) (seats + 1)
                (added ++ [target])

def addChannelMembers (caps : Caps) (now channelID caller : Int) (targets : List Int) :
    Body (Finish (List Int)) := do
  let member ← .query (·.isChannelMember channelID caller)
  if member = false then .fail .notMember
  else do
    let locked ← lockChannel channelID
    let _ ← .orFail .notMember locked
    let callerRow ← channelParticipantByUser channelID caller
    let callerRow ← .orFail .notMember callerRow
    if callerRow.role < channelRoleAdmin ∨ callerRow.banned now then .fail .notMember
    else do
      let state ← channelStateForUpdate channelID
      let state ← .orFail .notMember state
      if targets.any (· ≤ 0) then .fail .notMember
      else do
        lockOwners targets
        let seats ← .query (·.countChannelParticipants channelID)
        let added ← addTargets caps channelID state targets [] seats []
        pure (.commit added)

inductive Call where
  | post (times : PostTimes) (p : Post)
  | setRole (now channel caller target role : Int)
  | setBan (now channel caller target : Int) (until_ : Option Int) (forever : Bool)
  | leave (now channel user : Int)
  | joinByInvite (hash : String) (user : Int)
  | joinByUsername (now channel user : Int)
  | addMembers (now channel caller : Int) (targets : List Int)
  | create (now creator : Int) (title : String) (megagroup : Bool) (draws : List Int)
  | setSlowMode (now channel caller seconds : Int)
  | editUsername (times : EditTimes) (channel caller : Int) (username : String)
  | send (times : PostTimes) (limited : Bool) (p : Post)
  deriving DecidableEq

inductive Reply where
  | posted (r : Posted)
  | done
  | left (was : Bool)
  | joined (channel : Channel) (row : ChannelParticipant)
  | added (ids : List Int)
  | created (r : Created)
  | slowMode (channel : Channel) (changed : Bool)
  deriving DecidableEq

def answer {A : Type} (f : A → Reply) (p : Body (Finish A)) : Body (Finish Reply) := do
  let r ← p
  match r with
  | .commit a => pure (.commit (f a))
  | .rollback a => pure (.rollback (f a))

def code (caps : Caps) : Call → Body (Finish Reply)
  | .post times p => answer .posted (postChannelMessageAs times p)
  | .setRole now channel caller target role =>
    answer (fun _ => .done) (setChannelRole now channel caller target role)
  | .setBan now channel caller target until_ forever =>
    answer (fun _ => .done) (setChannelBan now channel caller target until_ forever)
  | .leave now channel user => answer .left (leaveChannel now channel user)
  | .joinByInvite hash user => answer (fun r => .joined r.1 r.2)
    (joinChannelByInvite caps hash user)
  | .joinByUsername now channel user =>
    answer (fun r => .joined r.1 r.2) (joinChannelByUsername caps now channel user)
  | .addMembers now channel caller targets =>
    answer .added (addChannelMembers caps now channel caller targets)
  | .create now creator title megagroup draws =>
    answer .created (createChannel caps now creator title megagroup draws)
  | .setSlowMode now channel caller seconds =>
    answer (fun r => .slowMode r.1 r.2) (setChannelSlowMode now channel caller seconds)
  | .editUsername times channel caller username =>
    answer (fun _ => .done) (editChannelUsername times channel caller username)
  | .send times limited p => answer .posted (sendChannelMessage times limited p)

end TelegramServer.Channels
