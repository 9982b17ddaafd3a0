import TelegramServer.Channels.PostRights
import TelegramServer.Channels.Specs

/-!
# Joining by username and the public username

A join by username reads the channel under `channel_state`, which an edit of the username does
not take. So an edit that clears the username may commit between that read and the commit of
the join.
-/

namespace TelegramServer.Channels

open Tx Tx.Locking List

def DB.isPublic (d : DB) (channel : Int) : Bool :=
  (d.channelByID channel).any fun c => c.username.getD "" ≠ ""

/-- What a commit may do beside a join by username that holds `channel_state`: it does not take
the username away. -/
def StaysPublic : Call → List Lock → DB → DB → Prop
  | .joinByUsername _ channel _, held, d, d' =>
    .state channel ∈ held → d.isPublic channel → d'.isPublic channel
  | _, _, _, _ => True

instance : (t : Call) → (held : List Lock) → (d d' : DB) → Decidable (StaysPublic t held d d')
  | .joinByUsername .., _, _, _ => inferInstanceAs (Decidable (_ → _ → _))
  | .post .., _, _, _ | .setRole .., _, _, _ | .setBan .., _, _, _ | .leave .., _, _, _
  | .joinByInvite .., _, _, _ | .addMembers .., _, _, _ | .create .., _, _, _
  | .setSlowMode .., _, _, _ | .editUsername .., _, _, _ | .send .., _, _, _ => instDecidableTrue

theorem staysPublic_refl (t : Call) (held : List Lock) (d : DB) : StaysPublic t held d d := by
  cases t with
  | joinByUsername => exact fun _ h => h
  | _ => trivial

variable {now channel user : Int} {held : List Lock} {c : Int} {caps : Caps} {d w : DB}
  {r : Record DB Reply ChannelErr Call}

theorem kept_isPublic (hstate : .state channel ∈ held) :
    locking.Kept (StaysPublic (.joinByUsername now channel user)) held
      fun d => d.isPublic channel = true :=
  fun _ _ h _ _ hok => hok hstate h

theorem rely_joinChannelByUsername (caps : Caps) :
    locking.rely (StaysPublic (.joinByUsername now channel user))
      (joinChannelByUsername caps now channel user) [] [] (fun _ => True)
      fun _ _ _ P => ∀ d, P d → d.isPublic channel := by
  unfold joinChannelByUsername
  refine rely_bind (rely_queryForUpdate fun d₀ _ => forget ?_)
  refine rely_bind (rely_orFail fun state hstate => ?_)
  simp only [hstate, Option.isSome_some, if_true, append_nil]
  refine rely_bind (rely_query_learn fun d _ => ?_)
  rw [Rows.replay_nil]
  cases hx : d.channelByID channel with
  | none => exact forget trivial
  | some x =>
    by_cases hname : x.username.getD "" = ""
    · refine forget (rely_bind (rely_orFail fun x' hx' => ?_))
      cases hx'
      rw [if_pos hname]
      trivial
    have hlocked : .state channel ∈ [Lock.state channel] := by simp
    refine ⟨_, by simp [DB.isPublic, hx, hname], kept_isPublic hlocked,
      rely_bind (rely_orFail fun x' hx' => ?_)⟩
    cases hx'
    rw [if_neg hname]
    refine rely_bind (rely_query (kept_isPublic hlocked) fun d _ => ?_)
    cases (locking.replay [] d).channelParticipantByUser channel user with
    | some row =>
      dsimp only
      split
      · trivial
      · exact fun _ h => h
    | none =>
      have hkeeps : Keeps (fun _ => true) (admitUser caps channel state user) [.state channel]
          fun _ _ => True :=
        keeps_admitUser rfl hlocked (by simp [Lock.rank]) fun _ _ => trivial
      refine rely_bind (rely_of_covers hkeeps.covers (fun more => kept_isPublic (by simp))
        fun _ _ _ _ => ?_)
      exact fun _ h => h

def JoinsPublic : Call → Finish Reply → DB → DB → Prop
  | .joinByUsername _ channel _, _, d, _ => d.isPublic channel
  | _, _, _, _ => True

theorem rely_code_public (caps : Caps) (t : Call) :
    locking.rely (StaysPublic t) (code caps t) [] [] (fun _ => True) fun r _ redo P =>
      ∀ d, P d → JoinsPublic t r d (locking.replay redo d) := by
  cases t with
  | joinByUsername now channel user =>
    refine rely_bind (rely_mono (rely_joinChannelByUsername caps) fun r held redo P h => ?_)
    cases r with
    | commit | rollback => exact h
  | _ => exact rely_of_covers (covers_code caps _) (fun _ => kept_true _) fun _ _ _ _ _ _ => trivial

/-! ## What makes a channel public -/

theorem isPublic_congr (h : w.channelByID c = d.channelByID c) : w.isPublic c = d.isPublic c := by
  rw [DB.isPublic, h, DB.isPublic]

theorem channelByID_replay {os : List Write} (h : ∀ o ∈ os, o.channel ≠ some c) (d : DB) :
    (locking.replay os d).channelByID c = d.channelByID c :=
  Rows.replay_frame (f := (·.channelByID c)) (fun o ho => channelByID_apply_of_ne (h o ho)) d

theorem Admissions.channelByID {pts : Int} {ids : List Int}
    (h : Admissions caps channel pts d ids w) (c : Int) : w.channelByID c = d.channelByID c := by
  obtain ⟨members, rfl⟩ := h.participants
  rfl

theorem Effect.isPublic {t : Call} {r : Reply} {vs : List DB} (h : Effect caps t d r vs w)
    (hd : d.isPublic c = false)
    (ht : ∀ times caller username, t = .editUsername times c caller username → username = "") :
    w.isPublic c = false := by
  cases t with
  | post times p | send times limited p =>
    obtain ⟨q, -, hstored | ⟨-, rfl⟩⟩ := h
    · rw [← hd, hstored.eq]
      exact isPublic_congr (channelByID_replay (by simp [postWrites]) d)
    · exact hd
  | setRole =>
    obtain ⟨-, -, -, rfl⟩ := h
    exact hd
  | setBan =>
    obtain ⟨-, rfl⟩ := h
    exact hd
  | leave =>
    obtain rfl | ⟨-, rfl⟩ := h
    · exact hd
    · exact hd
  | joinByInvite =>
    obtain rfl | ⟨i, pts, -, -, hjoin⟩ := h
    · exact hd
    · rw [← hd, isPublic_congr (hjoin.channelByID c)]
  | joinByUsername =>
    obtain rfl | ⟨pts, -, hjoin⟩ := h
    · exact hd
    · rw [← hd, isPublic_congr (hjoin.channelByID c)]
  | addMembers =>
    obtain ⟨-, -, ids, pts, -, hjoin, -⟩ := h
    rw [← hd, isPublic_congr (hjoin.channelByID c)]
  | create now creator title megagroup draws =>
    obtain ⟨id, hfree, -, -, -, rfl⟩ := h
    by_cases hc : id = c
    · subst hc
      have hnew : (locking.replay (createWrites now creator title megagroup id) d).channelByID id =
          some { id, title, creatorID := creator, date := now, megagroup } := by
        change ((Write.insertChannel _).apply d).channelByID id = _
        rw [channelByID_apply, hfree]
        simp [Write.onChannel]
      simp [DB.isPublic, hnew]
    · rw [← hd]
      exact isPublic_congr (channelByID_replay (by simp [createWrites, hc]) d)
  | setSlowMode now channel caller seconds =>
    obtain ⟨-, rfl | rfl⟩ := h
    · exact hd
    · rw [DB.isPublic, channelByID_apply]
      split
      · simpa [DB.isPublic, Write.onChannel, Option.any_map] using hd
      · exact hd
  | editUsername times channel caller username =>
    obtain ⟨-, hsame⟩ := h
    rw [DB.isPublic, hsame.channelByID, channelByID_apply]
    split
    · rename_i hc
      cases hc
      obtain rfl := ht times caller username rfl
      simp [Write.onChannel, editedUsername, Option.any_map]
    · exact hd

def SetsUsername (channel : Int) (r : Record DB Reply ChannelErr Call) : Prop :=
  ∃ times caller username reply, r.call = .editUsername times channel caller username ∧
    username ≠ "" ∧ r.outcome = .done (.commit reply)

theorem isPublic_of_meets (h : RecordMeets (Spec caps) r) (hset : ¬ SetsUsername c r)
    (hr : r.pre.isPublic c = false) : r.post.isPublic c = false := by
  obtain ⟨reply, vs, hdone, heffect⟩ | ⟨hsame, -⟩ := effect_of_meets h
  · refine heffect.isPublic hr fun times caller username hcall => ?_
    by_contra hne
    exact hset ⟨times, caller, username, reply, hcall, hne, hdone⟩
  · rw [hsame, hr]

theorem private_of_clear {times : EditTimes} {caller : Int} {reply : Reply}
    (h : RecordMeets (Spec caps) r) (hcall : r.call = .editUsername times c caller "")
    (hdone : r.outcome = .done (.commit reply)) : r.post.isPublic c = false := by
  obtain ⟨_, vs, -, heffect⟩ | ⟨-, hno⟩ := effect_of_meets h
  · rw [hcall] at heffect
    obtain ⟨-, hsame⟩ := heffect
    rw [DB.isPublic, hsame.channelByID, channelByID_apply]
    simp [Write.onChannel, editedUsername, Option.any_map]
  · exact absurd hdone (hno reply)

theorem channelByID_of_join {u : Int} (h : RecordMeets (Spec caps) r)
    (hcall : r.call = .joinByUsername now c u) : r.post.channelByID c = r.pre.channelByID c := by
  obtain ⟨_, vs, -, heffect⟩ | ⟨hsame, -⟩ := effect_of_meets h
  · rw [hcall] at heffect
    obtain heq | ⟨pts, -, hjoin⟩ := heffect
    · rw [heq]
    · exact hjoin.channelByID c
  · rw [hsame]

/-- Where no commit takes the username away beside a join that holds `channel_state`, every join by
username commits on a public channel, and none adds a row behind a clear. -/
theorem username_join_on_public {caps : Caps} {d₀ : DB} {c : ChannelConfig}
    (hc : ReachableBeside locking.toRows (code caps) StaysPublic d₀ c) :
    (∀ r ∈ c.log, ∀ now channel user reply, r.call = .joinByUsername now channel user →
      r.outcome = .done (.commit reply) → r.pre.isPublic channel ∧ r.post.isPublic channel) ∧
    ∀ before k between r after, c.log = before ++ k :: (between ++ r :: after) →
      ∀ times channel caller reply, k.call = .editUsername times channel caller "" →
        k.outcome = .done (.commit reply) → (∀ k' ∈ between, ¬ SetsUsername channel k') →
        ∀ now user, r.call = .joinByUsername now channel user → r.post = r.pre := by
  obtain ⟨hleads, hmeets⟩ := records_meet (code_effect caps) hc.reachable
  have hpublic : ∀ r ∈ c.log, ∀ now channel user reply, r.call = .joinByUsername now channel user →
      r.outcome = .done (.commit reply) → r.pre.isPublic channel := by
    intro r hr now channel user reply hcall hdone
    obtain ⟨w, hQ, -⟩ := (rely_sound (rely_code_public caps) hc).records r hr _ hdone
    rwa [hcall] at hQ
  refine ⟨fun r hr now channel user reply hcall hdone => ?_, ?_⟩
  · have hpre := hpublic r hr now channel user reply hcall hdone
    exact ⟨hpre, (isPublic_congr (channelByID_of_join (hmeets r hr) hcall)).trans hpre⟩
  · intro before k between r after hlog times channel caller reply hclear hdone hbetween now user
      hcall
    rw [hlog] at hleads hmeets hpublic
    obtain ⟨m, -, -, hrest⟩ := leads_append.mp hleads
    obtain ⟨m', hleads', hpre, -⟩ := leads_append.mp hrest
    have hk : k.post.isPublic channel = false := private_of_clear (hmeets k (by simp)) hclear hdone
    have hr : r.pre.isPublic channel = false := by
      rw [hpre]
      refine hleads'.invariant (P := fun d => d.isPublic channel = false) (fun k' hk' => ?_) hk
      exact isPublic_of_meets (hmeets k' (by simp [hk'])) (hbetween k' hk')
    obtain ⟨reply', vs, hdone', -⟩ | ⟨hsame, -⟩ := effect_of_meets (hmeets r (by simp))
    · rw [hpublic r (by simp) now channel user reply' hcall hdone'] at hr
      cases hr
    · exact hsame

def club : Channel := { id := 7, creatorID := 1, username := some "club" }

def publicChannel : DB where
  channels := [club]
  states := [{ channelID := 7 }]
  participants := [{ channelID := 7, userID := 1, role := 2 }]
  usernames := [{ handle := "club", owner := .channel 7 }]

def joinClub (user : Int) : Call := .joinByUsername 0 7 user

def clearClub : Call := .editUsername ⟨0, 0, 0⟩ 7 1 ""

def clubJoined (user : Int) : Outcome Reply ChannelErr :=
  .done (.commit (.joined club (newMember 7 user 0)))

/-- The calls and their ends, on a public channel or not, with the members left behind. -/
def publicLog (log : List (Record DB Reply ChannelErr Call)) :
    List (Call × Outcome Reply ChannelErr × Bool × List Int) :=
  log.map fun r => (r.call, r.outcome, r.pre.isPublic 7, r.post.memberIDs 7)

/-- The clear runs from its begin to its commit behind the join's read of the channel. -/
def clearUnderJoin : List (Move Call) :=
  [Move.begin 0 (joinClub 2)] ++ replicate 2 (Move.run 0) ++ [Move.begin 1 clearClub] ++
    replicate 10 (Move.run 1) ++ replicate 6 (Move.run 0)

def clearThenJoin : List (Call × Outcome Reply ChannelErr × Bool × List Int) :=
  [(clearClub, .done (.commit .done), true, [1]), (joinClub 2, clubJoined 2, false, [1, 2])]

/-- The channel is private, and then the join commits a new member. -/
theorem join_commits_on_private :
    ∃ c, Reachable locking.toRows (code {}) publicChannel c ∧ publicLog c.log = clearThenJoin :=
  Board.exists_run 2 clearUnderJoin (by decide +kernel)

def clearBetweenJoins : List (Move Call) :=
  [Move.begin 0 (joinClub 2)] ++ replicate 8 (Move.run 0) ++ [Move.begin 1 clearClub] ++
    replicate 10 (Move.run 1) ++ [Move.begin 0 (joinClub 3)] ++ replicate 3 (Move.run 0)

def joinThenClear : List (Call × Outcome Reply ChannelErr × Bool × List Int) :=
  [(joinClub 2, clubJoined 2, true, [1, 2]), (clearClub, .done (.commit .done), true, [1, 2]),
    (joinClub 3, .failed .notMember, false, [1, 2])]

theorem username_join_on_public_club : ∃ c,
    ReachableBeside locking.toRows (code {}) StaysPublic publicChannel c ∧
      ∃ r k r', c.log = [r, k, r'] ∧ r.call = joinClub 2 ∧ r.post.isPublic 7 ∧
        k.call = clearClub ∧ r'.call = joinClub 3 ∧ r'.post = r'.pre := by
  obtain ⟨c, hc, hlog⟩ : ∃ c, ReachableBeside locking.toRows (code {}) StaysPublic publicChannel c ∧
      publicLog c.log = joinThenClear :=
    Board.exists_beside staysPublic_refl 2 clearBetweenJoins (by decide +kernel)
  obtain ⟨hpublic, hbehind⟩ := username_join_on_public hc
  obtain ⟨r, rest, hlog', hr, hrest⟩ := map_eq_cons_iff.mp hlog
  obtain ⟨k, rest, rfl, hk, hrest⟩ := map_eq_cons_iff.mp hrest
  obtain ⟨r', rest, rfl, hr', hrest⟩ := map_eq_cons_iff.mp hrest
  obtain rfl := map_eq_nil_iff.mp hrest
  simp only [Prod.mk.injEq] at hr hk hr'
  refine ⟨c, hc, r, k, r', hlog', hr.1, ?_, hk.1, hr'.1, ?_⟩
  · exact (hpublic r (by simp [hlog']) _ _ _ _ hr.1 hr.2.1).2
  · exact hbehind [r] k [] r' [] hlog' _ _ _ _ hk.1 hk.2.1 (by simp) _ _ hr'.1

end TelegramServer.Channels
