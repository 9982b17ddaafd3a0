import TelegramServer.Store.Messages

/-!
# Poll transactions

A poll is created on the copies of a message; votes, the closing and views go through
the message copy of the caller's. `clock_timestamp()` moves on within a transaction, so
each read of it is an input.
-/

namespace TelegramServer.Store

open Tx

def maxPollAnswers : Nat := 10

def maxPollOptionBytes : Nat := 100

def maxPollTextBytes : Nat := 4096

def maxPollIDAttempts : Nat := 5

structure PollMessageRef where
  peerType : PeerType
  peerID : Int
  localID : Int
  deriving DecidableEq

structure PollAnswer where
  option : Bytes
  text : Bytes
  correct : Bool
  voterCount : Nat
  chosen : Bool
  deriving DecidableEq

structure PollView where
  id : Int
  creator : Bool
  question : Bytes
  answers : List PollAnswer
  publicVoters : Bool
  multipleChoice : Bool
  quiz : Bool
  openAnswers : Bool := false
  shuffleAnswers : Bool
  revotingDisabled : Bool
  closed : Bool
  closeDate : Option Int
  solution : Bytes
  hasVoted : Bool
  voterCount : Nat
  deriving DecidableEq

namespace DB

variable (d : DB)

def pollByMessage (owner localID : Int) (peerType : PeerType) (peerID : Int) : Option Poll :=
  if d.messages.any fun m =>
      Message.isAt owner localID m && m.peerType = peerType && m.peerID = peerID && !m.deleted then
    (d.pollCopies.filter (PollCopy.isAt owner localID)).findSome? fun c => d.pollByID c.pollID
  else none

def pollByCreatorRandomID (creatorID randomID : Int) : Option Poll :=
  d.polls.find? fun p => p.creatorID = creatorID ∧ p.randomID = randomID ∧ p.randomID ≠ 0

/-- The row would violate one of the unique indexes of `polls`. -/
def pollConflict (row : Poll) : Bool :=
  d.hasPoll row.id || (row.randomID ≠ 0 &&
    (d.pollByCreatorRandomID row.creatorID row.randomID).isSome)

def hasPollCopy (owner localID : Int) : Bool :=
  d.pollCopies.any (PollCopy.isAt owner localID)

def pollIsClosed (poll clock : Int) : Option Bool :=
  (d.pollByID poll).map fun p => p.closed || p.closeDate.any (· ≤ clock)

def pollVoterCount (poll : Int) : Nat :=
  (d.pollVotes.filter (·.pollID = poll)).length

def hasPollVote (poll voter : Int) : Bool :=
  d.pollVotes.any (PollVote.isFor poll voter)

/-- The voter's selections; nothing depends on the order in which they are listed. -/
def pollVoteOptionsByVoter (poll voter : Int) : List Bytes :=
  (d.pollVoteOptions.filter (PollVoteOption.isFor poll voter)).map (·.option)

/-- The poll's options by position, each with its count and whether the viewer chose it. -/
def pollOptionResults (poll viewer : Int) : List PollAnswer :=
  ((d.pollOptions.filter (·.pollID = poll)).insertionSort (·.position ≤ ·.position)).map fun o =>
    { option := o.option, text := o.text, correct := o.correct
      voterCount := (d.pollVoteOptions.filter fun v => v.pollID = poll ∧ v.option = o.option).length
      chosen := d.pollVoteOptions.any fun v =>
        PollVoteOption.isFor poll viewer v && v.option = o.option }

end DB

def validatePollRef (viewerID : Int) (ref : PollMessageRef) : Body Unit :=
  if viewerID ≤ 0 ∨ ref.peerID ≤ 0 ∨ ref.localID ≤ 0 then .fail .messageInvalid
  else
    match ref.peerType with
    | .user => if ref.peerID ≠ viewerID then .fail .messageInvalid else pure ()
    | .chat => pure ()
    | .channel => .fail .messageInvalid

def pollPeerAccess (viewerID : Int) (ref : PollMessageRef) : Body Unit := do
  validatePollRef viewerID ref
  if ref.peerType ≠ .chat then pure ()
  else do
    let member ← .query (·.isChatMember ref.peerID viewerID)
    if !member then .fail .notMember else pure ()

def pollMessageMatches (msg : Message) (ref : PollMessageRef) : Bool :=
  if msg.deleted || msg.action ≠ .none || msg.peerType ≠ ref.peerType || msg.peerID ≠ ref.peerID
    then
    false
  else ref.peerType ≠ .user || msg.fromID = msg.ownerID && msg.out

/-- The copies of a poll's message; outside a chat there is the row itself only. -/
def pollCopies (ref : PollMessageRef) (msg : Message) : Body (List Message) :=
  if ref.peerType = .chat then chatCopies msg else pure [msg]

def pollMember (viewerID : Int) (ref : PollMessageRef) : Body Unit :=
  if ref.peerType = .chat then do
    let members ← chatMembers ref.peerID
    if viewerID ∉ members then .fail .notMember else pure ()
  else pure ()

/-- Locks the owners of every copy of the message, and returns the caller's row and the copies
as they are then. -/
def lockPollMessage (viewerID : Int) (ref : PollMessageRef) : Body (Message × List Message) := do
  pollPeerAccess viewerID ref
  let pre ← messageOrFail .messageInvalid viewerID ref.localID
  if !pollMessageMatches pre ref then .fail .messageInvalid
  else do
    let copies ← pollCopies ref pre
    lockOwners (copies.map (·.ownerID))
    let msg ← messageOrFail .messageInvalid viewerID ref.localID
    if !pollMessageMatches msg ref then .fail .messageInvalid
    else do
      pollMember viewerID ref
      -- Outside a chat the copy is still the row as it was read before the lock.
      let copies ← if ref.peerType = .chat then chatCopies msg else pure copies
      pure (msg, copies)

def pollOfMessage (viewerID : Int) (ref : PollMessageRef) : Body Poll := do
  let row ← .query (·.pollByMessage viewerID ref.localID ref.peerType ref.peerID)
  .orFail .messageInvalid row

def lockPoll (id : Int) : Body Poll := do
  let row ← pollByIDForUpdate id
  .orFail .messageInvalid row

def lockPollForMutation (viewerID : Int) (ref : PollMessageRef) : Body Poll := do
  let _ ← lockPollMessage viewerID ref
  let row ← pollOfMessage viewerID ref
  lockPoll row.id

/-! ## Votes -/

def normalizePollSelection (selected : List Bytes) : Option (List Bytes) :=
  if selected.any fun o => o.length = 0 || maxPollOptionBytes < o.length then none
  else if maxPollAnswers < selected.eraseDups.length then none
  else some selected.eraseDups

def samePollSelection (previous selected : List Bytes) : Bool :=
  previous.length = selected.length && selected.all (· ∈ previous)

def pollIsClosed (clock poll : Int) : Body Bool := do
  let closed ← .query (·.pollIsClosed poll clock)
  .orFail .noRows closed

/-- Correct answers and the solution show once the viewer has voted or the poll is closed. -/
def PollView.of (row : Poll) (viewerID : Int) (closed hasVoted : Bool) (voterCount : Nat)
    (options : List PollAnswer) : PollView where
  id := row.id
  creator := row.creatorID = viewerID
  question := row.question
  answers := options.map fun o => { o with correct := (closed || hasVoted) && o.correct }
  publicVoters := row.publicVoters
  multipleChoice := row.multipleChoice
  quiz := row.quiz
  shuffleAnswers := row.shuffleAnswers
  revotingDisabled := row.revotingDisabled
  closed := closed
  closeDate := row.closeDate
  solution := if closed || hasVoted then row.solution else []
  hasVoted := hasVoted
  voterCount := voterCount

def pollView (clock : Int) (row : Poll) (viewerID : Int) : Body PollView := do
  let closed ← pollIsClosed clock row.id
  let voterCount ← .query (·.pollVoterCount row.id)
  let hasVoted ← .query (·.hasPollVote row.id viewerID)
  let options ← .query (·.pollOptionResults row.id viewerID)
  pure (.of row viewerID closed hasVoted voterCount options)

def insertPollVoteOptions (poll voter : Int) : List Bytes → Body Unit
  | [] => pure ()
  | option :: options => do
      .exec_ (.insertPollVoteOption poll voter option)
      insertPollVoteOptions poll voter options

/-- Replaces the voter's selections; an empty one retracts the vote. -/
def savePollVote (poll voter : Int) (hasVote : Bool) (options : List Bytes) : Body Unit :=
  if options = [] then
    if hasVote then .exec_ (.deletePollVote poll voter) else pure ()
  else do
    .exec_ (.insertPollVote poll voter)
    .exec_ (.deletePollVoteOptionsByVoter poll voter)
    insertPollVoteOptions poll voter options

/-- The clock as the check for an open poll and the rendering read it. -/
structure VoteTimes where
  checked : Int
  viewed : Int
  deriving DecidableEq

def castPollVote (times : VoteTimes) (viewerID : Int) (ref : PollMessageRef)
    (selected : List Bytes) : Body (Finish PollView) := do
  validatePollRef viewerID ref
  let poll ← lockPollForMutation viewerID ref
  let options ← .orFail .pollInvalid (normalizePollSelection selected)
  let hasVote ← .query (·.hasPollVote poll.id viewerID)
  let previous ← .query (·.pollVoteOptionsByVoter poll.id viewerID)
  if samePollSelection previous options then do
    let view ← pollView times.viewed poll viewerID
    pure (.commit view)
  else do
    let closed ← pollIsClosed times.checked poll.id
    if closed then .fail .pollClosed
    else if 1 < options.length ∧ poll.multipleChoice = false then .fail .pollInvalid
    else do
      let results ← .query (·.pollOptionResults poll.id viewerID)
      if options.any fun o => o ∉ results.map (·.option) then .fail .pollInvalid
      else if poll.revotingDisabled && hasVote then .fail .pollVoteNotAllowed
      else do
        savePollVote poll.id viewerID hasVote options
        let view ← pollView times.viewed poll viewerID
        pure (.commit view)

def closePoll (callerID : Int) (ref : PollMessageRef) : Body (Finish Bool) := do
  validatePollRef callerID ref
  let _ ← lockPollMessage callerID ref
  let row ← pollOfMessage callerID ref
  if row.creatorID ≠ callerID then .fail .pollDenied
  else do
    let row ← lockPoll row.id
    if row.closed then pure (.commit false)
    else do
      let n ← .exec (.closePoll row.id) fun d =>
        (d.polls.filter fun p => p.id = row.id ∧ p.closed = false).length
      pure (.commit (n = 1))

/-- The statements of a read-only transaction that all see one state. -/
def snapshot {A : Type} (p : Body A) : Body A := do
  let r ← .query fun d => (p.alone locking.toRows d).1
  match r with
  | .ok a => pure a
  | .error e => .fail e

def pollForMessage (clock viewerID : Int) (ref : PollMessageRef) : Body (Finish PollView) := do
  validatePollRef viewerID ref
  let view ← snapshot do
    pollPeerAccess viewerID ref
    let row ← pollOfMessage viewerID ref
    pollView clock row viewerID
  pure (.commit view)

/-! ## Creation -/

structure PollDraft where
  question : Bytes
  answers : List PollAnswer
  publicVoters : Bool := false
  multipleChoice : Bool := false
  quiz : Bool := false
  openAnswers : Bool := false
  shuffleAnswers : Bool := false
  revotingDisabled : Bool := false
  closeDate : Option Int := none
  solution : Bytes := []
  deriving DecidableEq

/-- A continuation byte, or a second byte from `lo` to `hi`. -/
def utf8Within (lo hi b : UInt8) : Bool := lo ≤ b && b ≤ hi

def utf8Tail (b : UInt8) : Bool := utf8Within 0x80 0xBF b

def utf8Valid : Bytes → Bool
  | [] => true
  | b :: rest =>
    if b < 0x80 then utf8Valid rest
    else
      match rest with
      | c :: rest =>
        if utf8Within 0xC2 0xDF b then utf8Tail c && utf8Valid rest
        else
          match rest with
          | e :: rest =>
            if utf8Within 0xE0 0xEF b then
              utf8Within (if b = 0xE0 then 0xA0 else 0x80) (if b = 0xED then 0x9F else 0xBF) c &&
                utf8Tail e && utf8Valid rest
            else
              match rest with
              | f :: rest =>
                utf8Within 0xF0 0xF4 b &&
                  utf8Within (if b = 0xF0 then 0x90 else 0x80)
                    (if b = 0xF4 then 0x8F else 0xBF) c &&
                  utf8Tail e && utf8Tail f && utf8Valid rest
              | [] => false
          | [] => false
      | [] => false

def PollAnswer.valid (a : PollAnswer) : Bool :=
  a.option.length ≠ 0 && a.option.length ≤ maxPollOptionBytes &&
    a.text.length ≠ 0 && a.text.length ≤ maxPollTextBytes && utf8Valid a.text

def PollDraft.canonical (draft : PollDraft) : PollDraft :=
  { draft with
    openAnswers := false
    revotingDisabled := draft.revotingDisabled || draft.quiz
    answers := draft.answers.map fun a => { a with voterCount := 0, chosen := false } }

def PollDraft.closesInTime (draft : PollDraft) (now : Int) : Bool :=
  draft.closeDate.all fun date => 5 ≤ date - now && date - now ≤ 600

/-- A quiz has correct answers, exactly one unless it is multiple-choice; other polls have none. -/
def PollDraft.marksOk (draft : PollDraft) : Bool :=
  let correctCount := draft.answers.countP (·.correct)
  if draft.quiz then correctCount ≠ 0 && (draft.multipleChoice || correctCount = 1)
  else correctCount = 0

def normalizePollDraft (draft : PollDraft) (now : Int) : Option PollDraft :=
  if draft.question.length = 0 ∨ maxPollTextBytes < draft.question.length ∨
      utf8Valid draft.question = false then none
  else if draft.answers.length < 2 ∨ maxPollAnswers < draft.answers.length then none
  else if draft.closesInTime now = false then none
  else if draft.answers.all PollAnswer.valid = false then none
  else if ¬ (draft.answers.map (·.option)).Nodup then none
  else if draft.marksOk = false then none
  else some draft.canonical

def PollDraft.row (draft : PollDraft) (creatorID randomID sourceLocalID id : Int) : Poll where
  id := id
  creatorID := creatorID
  randomID := randomID
  sourceLocalID := sourceLocalID
  question := draft.question
  publicVoters := draft.publicVoters
  multipleChoice := draft.multipleChoice
  quiz := draft.quiz
  shuffleAnswers := draft.shuffleAnswers
  revotingDisabled := draft.revotingDisabled
  closeDate := draft.closeDate
  solution := draft.solution

/-- The chat of the message under its row lock, before any owner's lock. -/
def lockPollChat (creatorID : Int) (ref : PollMessageRef) : Body (Option Chat) :=
  if ref.peerType = .chat then do
    pollPeerAccess creatorID ref
    let chat ← chatByIDForUpdate ref.peerID
    let chat ← .orFail .notMember chat
    pure (some chat)
  else pure none

def pollByCreatorRandomID (creatorID randomID : Int) : Body (Option Poll) :=
  if randomID ≠ 0 then .query (·.pollByCreatorRandomID creatorID randomID) else pure none

/-- `INSERT ... ON CONFLICT DO NOTHING`: a new row belongs to its transaction. -/
def insertPollRow (row : Poll) : Body Bool :=
  .stmt (fun d => if d.pollConflict row then [] else [.poll row.id])
    (fun d => if d.pollConflict row then [] else [.insertPoll row])
    fun d => .ret (!d.pollConflict row)

/-- Tries one id after the other. An earlier poll for the message's random id ends the search. -/
def insertPoll (row : Int → Poll) : List Int → Body (Poll × Bool)
  | [] => .fail .pollIDRetryLimit
  | id :: ids => do
      let inserted ← insertPollRow (row id)
      if inserted then pure (row id, true)
      else do
        let prior ← pollByCreatorRandomID (row id).creatorID (row id).randomID
        match prior with
        | some p => pure (p, false)
        | none => insertPoll row ids

def insertPollOptions (poll : Int) : Nat → List PollAnswer → Body Unit
  | _, [] => pure ()
  | position, a :: answers => do
      .exec_ (.insertPollOption ⟨poll, a.option, a.text, a.correct, position⟩)
      insertPollOptions poll (position + 1) answers

/-- `INSERT ... ON CONFLICT (owner_id, local_id) DO NOTHING`, and whether a row was inserted. -/
def insertPollMessageCopy (owner localID poll : Int) : Body Bool :=
  .stmt (fun _ => [])
    (fun d => if d.hasPollCopy owner localID then []
      else [.insertPollMessageCopy owner localID poll])
    fun d => .ret (!d.hasPollCopy owner localID)

def linkPollCopies (poll : Int) : List Message → Body Unit
  | [] => pure ()
  | copy :: copies =>
    if copy.deleted then linkPollCopies poll copies
    else do
      let linked ← insertPollMessageCopy copy.ownerID copy.localID poll
      if linked then linkPollCopies poll copies else .fail .pollInvalid

/-- The server's clock when the draft is checked, and the database's for the rendering. -/
structure CreateTimes where
  checked : Int
  viewed : Int
  deriving DecidableEq

def priorPoll (viewed creatorID : Int) (msg : Message) (prior : Poll) :
    Body (Finish (PollView × Bool)) :=
  if prior.sourceLocalID ≠ msg.localID then .fail .pollInvalid
  else do
    let view ← pollView viewed prior creatorID
    pure (.commit (view, true))

/-- The ids are what `randomPollID` draws, one for each attempt. -/
def createPoll (times : CreateTimes) (ids : List Int) (creatorID : Int) (ref : PollMessageRef)
    (draft : PollDraft) : Body (Finish (PollView × Bool)) := do
  validatePollRef creatorID ref
  let chat ← lockPollChat creatorID ref
  let (msg, copies) ← lockPollMessage creatorID ref
  if !msg.out || msg.fromID ≠ creatorID then .fail .messageInvalid
  else do
    let prior ← pollByCreatorRandomID creatorID msg.randomID
    match prior with
    | some prior => priorPoll times.viewed creatorID msg prior
    | none => do
        let canonical ← .orFail .pollInvalid (normalizePollDraft draft times.checked)
        if chat.any fun c => creatorID ≠ c.creatorID && "send_polls" ∈ c.defaultBannedRights then
          .fail .chatWriteForbidden
        else do
          let (row, new) ← insertPoll (canonical.row creatorID msg.randomID msg.localID)
            (ids.take maxPollIDAttempts)
          if new then do
            insertPollOptions row.id 0 canonical.answers
            linkPollCopies row.id copies
            let view ← pollView times.viewed row creatorID
            pure (.commit (view, false))
          else priorPoll times.viewed creatorID msg row

end TelegramServer.Store
