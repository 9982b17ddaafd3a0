import TelegramServer.Channels.Schema
import TelegramServer.Conc.Machine
import TelegramServer.Radix.Suffix

/-!
# Summaries of the live posts of a channel

Every channel has a binary tree over the bits of its post ids, and one more for each author. A
node counts the live posts under it. A trigger keeps the trees with every change of a post, and
an initializer builds them for a channel that was there before.
-/

namespace TelegramServer.Channels

open Tx.Table Radix

/-- `scope_kind` with `author_id`. -/
inductive SummaryScope where
  | channel
  | author (id : Int)
  deriving DecidableEq

/-- The primary key of `channel_post_summaries`; `stem` is the `prefix` column. -/
structure NodeKey where
  channelID : Int
  scope : SummaryScope
  depth : Nat
  stem : Int
  deriving DecidableEq

structure SummaryState where
  channelID : Int
  version : Int
  ready : Bool

/-- The channel tables with the summaries; `nodes` is the `live_count` of each row. -/
structure SummaryTables extends DB where
  summaryStates : List SummaryState := []
  nodes : NodeKey → Option Int := fun _ => none

def ChannelMessage.live (m : ChannelMessage) : Bool :=
  !m.deleted && m.action = .none

def bigintMax : Int := 2 ^ 63 - 1

namespace SummaryTables

variable (d : SummaryTables)

def summaryState (channel : Int) : Option SummaryState :=
  d.summaryStates.find? (·.channelID = channel)

def ready (channel : Int) : Bool :=
  (d.summaryState channel).any fun s => s.version = 1 && s.ready

def livePosts (channel : Int) : List ChannelMessage :=
  d.messages.filter fun m => m.channelID = channel ∧ m.live

def liveCount (k : NodeKey) : Int :=
  (d.nodes k).getD 0

end SummaryTables

/-- The nodes above a post, in the tree of the channel and in that of the author. -/
def nodeKeys (m : ChannelMessage) : List NodeKey :=
  (List.range 64).flatMap fun depth =>
    [⟨m.channelID, .channel, depth, m.localID >>> (63 - depth)⟩,
      ⟨m.channelID, .author m.fromID, depth, m.localID >>> (63 - depth)⟩]

/-- `source_changes`: what the row was and what it is, as far as it counts. -/
def sourceChanges (old new : Option ChannelMessage) : List (ChannelMessage × Int) :=
  ((old.filter (·.live)).map (·, -1)).toList ++ ((new.filter (·.live)).map (·, 1)).toList

def nodeDelta (changes : List (ChannelMessage × Int)) (k : NodeKey) : Int :=
  (changes.map fun c => c.2 * ((nodeKeys c.1).count k : Int)).sum

def nodeChanges (changes : List (ChannelMessage × Int)) : List NodeKey :=
  (changes.flatMap fun c => nodeKeys c.1).dedup.filter fun k => nodeDelta changes k ≠ 0

def unmoved : Option ChannelMessage → Option ChannelMessage → Bool
  | some o, some n =>
    o.live && n.live && o.channelID = n.channelID && o.localID = n.localID &&
      o.fromID = n.fromID && o.action = n.action
  | _, _ => false

namespace SummaryTables

variable (d : SummaryTables)

/-- The channel has its state row, and no summaries of another version. -/
def supported (channel : Int) : Bool :=
  (d.channelState channel).isSome && (d.summaryState channel).all (·.version = 1)

/-- The final value of every node that changes, in the channels that are ready. The table
refuses a negative count. -/
def writeNodes (changes : List (ChannelMessage × Int)) : Option SummaryTables :=
  let keys := (nodeChanges changes).filter fun k => d.ready k.channelID
  if keys.all fun k => 0 ≤ d.liveCount k + nodeDelta changes k then
    some { d with
      nodes := fun k => if k ∈ keys then some (d.liveCount k + nodeDelta changes k) else d.nodes k }
  else none

/-- `channel_post_summary_maintain_source`; `none` is an exception. -/
def maintainSource (old new : Option ChannelMessage) : Option SummaryTables :=
  let changes := sourceChanges old new
  if changes = [] then some d
  else if unmoved old new then some d
  else if changes.all fun c => d.supported c.1.channelID then d.writeNodes changes
  else none

/-- `COUNT(*)` of the live posts under a node; no row for a node without any. -/
def rebuilt (channel : Int) (k : NodeKey) : Option Int :=
  let n := ((d.livePosts channel).flatMap nodeKeys).count k
  if n = 0 then none else some n

def setSummaryState (channel : Int) (ready : Bool) : SummaryTables :=
  { d with
    summaryStates := upsertWhere (·.channelID = channel)
      (fun s => { s with version := 1, ready }) ⟨channel, 1, ready⟩ d.summaryStates }

def initializeChannelPostSummaries (channel : Int) : Option SummaryTables :=
  if channel ≤ 0 then none
  else if (d.channelState channel).isNone then none
  else if d.messages.any fun m => m.channelID = channel ∧ (m.localID ≤ 0 ∨ m.fromID ≤ 0) then none
  else
    some ({ d with
      nodes := fun k => if k.channelID = channel then d.rebuilt channel k
        else d.nodes k }.setSummaryState
        channel true)

/-- What the row trigger and the keys ask of a new row: positive ids of the column's range, and a
channel that is there. -/
def validSource (m : ChannelMessage) : Bool :=
  0 < m.localID && m.localID ≤ bigintMax && 0 < m.fromID && (d.channelByID m.channelID).isSome

def hasPost (channel localID : Int) : Bool :=
  (d.channelMessageByLocal channel localID).isSome

def insertPost (m : ChannelMessage) : Option SummaryTables :=
  if d.validSource m && !d.hasPost m.channelID m.localID then
    { d with messages := d.messages ++ [m] }.maintainSource none (some m)
  else none

def updatePost (channel localID : Int) (m : ChannelMessage) : Option SummaryTables :=
  match d.channelMessageByLocal channel localID with
  | none => some d
  | some o =>
    let kept := { d with messages := d.messages.erase o }
    if d.validSource m && !kept.hasPost m.channelID m.localID then
      { d with messages := d.messages.erase o ++ [m] }.maintainSource (some o) (some m)
    else none

def deletePost (channel localID : Int) : Option SummaryTables :=
  match d.channelMessageByLocal channel localID with
  | none => some d
  | some o =>
    if 0 < o.localID && 0 < o.fromID then
      { d with messages := d.messages.erase o }.maintainSource (some o) none
    else none

def insertChannel (c : Channel) : Option SummaryTables :=
  if (d.channelByID c.id).isSome then none
  else
    some { d with
      channels := d.channels ++ [c]
      summaryStates := insertAbsent (·.channelID = c.id) ⟨c.id, 1, true⟩ d.summaryStates }

def ensureChannelState (channel : Int) : Option SummaryTables :=
  if (d.channelByID channel).isSome then
    some { d with toDB := (Write.ensureChannelState channel).apply d.toDB }
  else none

def markNotReady (channel : Int) : Option SummaryTables :=
  if (d.channelState channel).isSome then some (d.setSummaryState channel false) else none

/-- `suffix_keys`: depth and stem of the nodes that make up the ids above the marker. -/
def suffixKeys (marker : Int) : List (Nat × Int) :=
  (if marker = 0 then [(0, 0)] else []) ++
    ((List.range 63).map (· + 1)).filterMap fun depth : Nat =>
      -- `(m >> (63 - depth)) & 1` and `((m >> (64 - depth)) << 1) | 1`
      if 0 < marker ∧ marker >>> (63 - depth) % 2 = 0 then
        some (depth, 2 * (marker >>> (64 - depth)) + 1)
      else none

def suffixSum (channel : Int) (scope : SummaryScope) (marker : Int) : Int :=
  ((suffixKeys marker).map fun k => d.liveCount ⟨channel, scope, k.1, k.2⟩).sum

def entitled (now channel viewer : Int) : Bool :=
  (d.channelParticipantByUser channel viewer).any fun p => !p.banned now

end SummaryTables

structure SuffixCounts where
  entitled : Bool
  statusExists : Bool
  summaryVersion : Int
  summaryReady : Bool
  totalLive : Int
  authorLive : Int

def SummaryTables.channelPostUnreadSuffixCounts (d : SummaryTables)
    (now channel viewer marker : Int) : SuffixCounts where
  entitled := d.entitled now channel viewer
  statusExists := (d.summaryState channel).isSome
  summaryVersion := ((d.summaryState channel).map (·.version)).getD 0
  summaryReady := ((d.summaryState channel).map (·.ready)).getD false
  totalLive :=
    if d.entitled now channel viewer ∧
      d.ready channel then d.suffixSum channel .channel marker else 0
  authorLive :=
    if d.entitled now channel viewer ∧ d.ready channel then
      d.suffixSum channel (.author viewer) marker
    else 0

inductive SummaryOp where
  | insertPost (m : ChannelMessage)
  | updatePost (channel localID : Int) (m : ChannelMessage)
  | deletePost (channel localID : Int)
  | insertChannel (c : Channel)
  | ensureChannelState (channel : Int)
  | markNotReady (channel : Int)
  | initializeSummaries (channel : Int)

def SummaryOp.apply (d : SummaryTables) : SummaryOp → Option SummaryTables
  | .insertPost m => d.insertPost m
  | .updatePost channel localID m => d.updatePost channel localID m
  | .deletePost channel localID => d.deletePost channel localID
  | .insertChannel c => d.insertChannel c
  | .ensureChannelState channel => d.ensureChannelState channel
  | .markNotReady channel => d.markNotReady channel
  | .initializeSummaries channel => d.initializeChannelPostSummaries channel

def summaryMachine : Conc.Machine SummaryTables SummaryOp where
  step d o := o.apply d

end TelegramServer.Channels
