import TelegramServer.Store.Schema
import TelegramServer.Tx.Rules

/-!
# Channel tables

A channel has one stream of posts that all its members read, so its counters and its event
log are keyed by the channel. Rows carry the columns that the modelled transactions read or
write; times are nanoseconds.
-/

namespace TelegramServer.Channels

open Tx Tx.Table

def channelRoleMember : Int := 0
def channelRoleAdmin : Int := 1
def channelRoleCreator : Int := 2

def second : Int := 1000000000

/-- What a `banned_until` of `infinity` is read as. -/
def bannedForever : Int := 253402300799 * second

structure Channel where
  id : Int
  title : String := ""
  creatorID : Int
  date : Int := 0
  megagroup : Bool := false
  username : Option String := none
  defaultBannedRights : List String := []
  slowmodeSeconds : Int := 0
  deriving DecidableEq

structure ChannelState where
  channelID : Int
  pts : Int := 0
  nextLocalID : Int := 1

structure ChannelParticipant where
  channelID : Int
  userID : Int
  role : Int := 0
  /-- `infinity` is stored as `bannedForever`. -/
  bannedUntil : Option Int := none
  joinPts : Int := 0
  lastPostAt : Option Int := none
  deriving DecidableEq

def ChannelParticipant.banned (p : ChannelParticipant) (now : Int) : Bool :=
  p.bannedUntil.any (now < ·)

inductive ChannelMessageAction where
  | none
  | create
  deriving DecidableEq

structure ChannelMessage where
  channelID : Int
  localID : Int
  fromID : Int
  date : Int
  message : String
  editDate : Option Int := none
  deleted : Bool := false
  randomID : Int := 0
  fileID : Option Int := none
  replyToMsgID : Option Int := none
  action : ChannelMessageAction := .none
  deriving DecidableEq

structure ChannelEvent where
  channelID : Int
  pts : Int
  type : Store.EventType
  localID : Int

structure ChannelInvite where
  hash : String
  channelID : Int
  creatorID : Int
  revokedAt : Option Int := none

structure ChannelPostMarker where
  channelID : Int
  userID : Int
  lastPostAt : Int

inductive HandleOwner where
  | user (id : Int)
  | channel (id : Int)
  deriving DecidableEq

structure Username where
  handle : String
  owner : HandleOwner

structure ChannelUsernameChange where
  channelID : Int
  changedAt : Int

structure DB where
  channels : List Channel := []
  states : List ChannelState := []
  participants : List ChannelParticipant := []
  messages : List ChannelMessage := []
  events : List ChannelEvent := []
  invites : List ChannelInvite := []
  markers : List ChannelPostMarker := []
  usernames : List Username := []
  usernameChanges : List ChannelUsernameChange := []

def ChannelParticipant.isFor (channel user : Int) (p : ChannelParticipant) : Bool :=
  p.channelID = channel ∧ p.userID = user

def ChannelPostMarker.isFor (channel user : Int) (m : ChannelPostMarker) : Bool :=
  m.channelID = channel ∧ m.userID = user

namespace DB

variable (d : DB)

def channelByID (id : Int) : Option Channel :=
  d.channels.find? (·.id = id)

def channelMegagroup (id : Int) : Option Bool :=
  (d.channelByID id).map (·.megagroup)

def channelState (channel : Int) : Option ChannelState :=
  d.states.find? (·.channelID = channel)

def channelParticipantByUser (channel user : Int) : Option ChannelParticipant :=
  d.participants.find? (ChannelParticipant.isFor channel user)

def isChannelMember (channel user : Int) : Bool :=
  (d.channelParticipantByUser channel user).isSome

def countChannelParticipants (channel : Int) : Nat :=
  (d.participants.filter (·.channelID = channel)).length

def countChannelsForUser (user : Int) : Nat :=
  (d.participants.filter (·.userID = user)).length

def postMarker (channel user : Int) : Option Int :=
  (d.markers.find? (ChannelPostMarker.isFor channel user)).map (·.lastPostAt)

def channelMessageByRandomID (channel randomID : Int) : Option ChannelMessage :=
  d.messages.find? fun m => m.channelID = channel ∧ m.randomID = randomID ∧ m.randomID ≠ 0

def channelMessageByLocal (channel localID : Int) : Option ChannelMessage :=
  d.messages.find? fun m => m.channelID = channel ∧ m.localID = localID

def channelPostExistsActive (channel localID : Int) : Bool :=
  d.messages.any fun m =>
    m.channelID = channel ∧ m.localID = localID ∧ m.deleted = false ∧ m.action = .none

def newChannelPostPts (channel localID : Int) : Option Int :=
  (d.events.find? fun e =>
    e.channelID = channel ∧ e.localID = localID ∧ e.type = .newMessage).map (·.pts)

def channelInviteByHash (hash : String) : Option ChannelInvite :=
  d.invites.find? fun i => i.hash = hash ∧ i.revokedAt = none

def usernameByHandle (handle : String) : Option Username :=
  d.usernames.find? (·.handle = handle)

def handlesOf (owner : HandleOwner) : List String :=
  (d.usernames.filter (·.owner = owner)).map (·.handle)

def countChannelUsernameChanges (channel cutoff : Int) : Nat :=
  (d.usernameChanges.filter fun x => x.channelID = channel ∧ cutoff ≤ x.changedAt).length

end DB

inductive Write where
  | ensureChannelState (channel : Int)
  | bumpChannelState (channel : Int)
  | insertChannelMessage (m : ChannelMessage)
  | insertChannelEvent (e : ChannelEvent)
  | updateChannelPostMarker (channel user at_ : Int)
  | insertChannelParticipantIfAbsent (p : ChannelParticipant)
  | updateChannelParticipantRole (channel user role : Int)
  | updateChannelParticipantBan (channel user : Int) (bannedUntil : Option Int)
  | deleteChannelParticipant (channel user : Int)
  | insertChannel (c : Channel)
  | setChannelUsername (channel : Int) (username : Option String)
  | setChannelSlowMode (channel seconds : Int)
  | claimUsername (u : Username)
  | releaseUsername (handle : String)
  | insertChannelUsernameChange (channel at_ : Int)
  | deleteExpiredChannelUsernameChanges (channel cutoff : Int)

def Write.apply : Write → DB → DB
  | .ensureChannelState channel, d =>
    { d with states := insertAbsent (·.channelID = channel) { channelID := channel } d.states }
  | .bumpChannelState channel, d =>
    { d with
      states := updateWhere (·.channelID = channel)
        (fun s => { s with pts := s.pts + 1, nextLocalID := s.nextLocalID + 1 }) d.states }
  | .insertChannelMessage m, d => { d with messages := d.messages ++ [m] }
  | .insertChannelEvent e, d => { d with events := d.events ++ [e] }
  | .updateChannelPostMarker channel user at_, d =>
    { d with
      participants := updateWhere (ChannelParticipant.isFor channel user)
        (fun p => { p with lastPostAt := some at_ }) d.participants
      markers := upsertWhere (ChannelPostMarker.isFor channel user)
        (fun m => { m with lastPostAt := at_ })
        { channelID := channel, userID := user, lastPostAt := at_ } d.markers }
  | .insertChannelParticipantIfAbsent p, d =>
    { d with
      participants := insertAbsent (ChannelParticipant.isFor p.channelID p.userID) p
        d.participants }
  | .updateChannelParticipantRole channel user role, d =>
    { d with
      participants := updateWhere (ChannelParticipant.isFor channel user)
        (fun p => { p with role }) d.participants }
  | .updateChannelParticipantBan channel user bannedUntil, d =>
    { d with
      participants := updateWhere (ChannelParticipant.isFor channel user)
        (fun p => { p with bannedUntil }) d.participants }
  | .deleteChannelParticipant channel user, d =>
    { d with
      participants := d.participants.filter fun p => !ChannelParticipant.isFor channel user p }
  | .insertChannel c, d => { d with channels := insertAbsent (·.id = c.id) c d.channels }
  | .setChannelUsername channel username, d =>
    { d with channels := updateWhere (·.id = channel) (fun c => { c with username }) d.channels }
  | .setChannelSlowMode channel seconds, d =>
    { d with
      channels := updateWhere (·.id = channel) (fun c => { c with slowmodeSeconds := seconds })
        d.channels }
  | .claimUsername u, d => { d with usernames := d.usernames ++ [u] }
  | .releaseUsername handle, d =>
    { d with usernames := d.usernames.filter fun u => u.handle ≠ handle }
  | .insertChannelUsernameChange channel at_, d =>
    { d with usernameChanges := d.usernameChanges ++ [{ channelID := channel, changedAt := at_ }] }
  | .deleteExpiredChannelUsernameChanges channel cutoff, d =>
    { d with
      usernameChanges := d.usernameChanges.filter fun x =>
        ¬ (x.channelID = channel ∧ x.changedAt < cutoff) }

end TelegramServer.Channels
