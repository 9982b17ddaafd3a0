import TelegramServer.Channels.Publicness

/-!
# Slow mode

The marker of a user in a channel holds the stamp of the user's last new post, under whatever
membership it was made, and every post reads it under `channel_state`.
-/

namespace TelegramServer.Channels

open Tx Tx.Locking List
open ChannelPostMarker (isFor)

abbrev WatchedRecord := Record DB (Except ChannelErr Reply × List DB) Empty Call

/-- The call stored a new post, after these views. -/
structure NewPost (r : WatchedRecord) (times : PostTimes) (p : Post) (lead : Nat) (vs : List DB) :
    Prop where
  call : r.call.posting = some (times, p, lead)
  posted : ∃ q, r.outcome.answer = some (.ok (.posted q), vs) ∧ q.dup = false

variable {caps : Caps} {t : Call} {d w : DB} {r : Reply} {vs : List DB} {times : PostTimes}
  {p : Post} {lead : Nat} {q : Posted}

theorem postMarker_apply (o : Write) (d : DB) (c u : Int) :
    (o.apply d).postMarker c u = match o with
      | .updateChannelPostMarker channel user at_ =>
        if (channel, user) = (c, u) then some at_ else d.postMarker c u
      | _ => d.postMarker c u := by
  cases o with
  | updateChannelPostMarker channel user at_ =>
    simp only [Write.apply, DB.postMarker]
    rw [Table.find?_upsertWhere_key (k := fun m : ChannelPostMarker => (m.channelID, m.userID))
      (a := (channel, user)) (b := (c, u)) (by simp [isFor]) (by simp [isFor]) (by simp) rfl]
    split
    · cases d.markers.find? (isFor c u) <;> rfl
    · rfl
  | _ => rfl

theorem Effect.stored (h : Effect caps t d (.posted q) vs w)
    (ht : t.posting = some (times, p, lead)) (hq : q.dup = false) :
    Stored times p lead d q vs w := by
  obtain ⟨q', heq, h⟩ := h.posted ht
  obtain rfl := Reply.posted.inj heq
  refine h.resolve_right fun hfound => ?_
  rw [hfound.1.dup] at hq
  cases hq

theorem postMarker_replay {os : List Write} {c u : Int}
    (h : ∀ o ∈ os, ∀ at_, o ≠ .updateChannelPostMarker c u at_) (d : DB) :
    (locking.replay os d).postMarker c u = d.postMarker c u := by
  refine Rows.replay_frame (f := (·.postMarker c u)) (fun o ho d => ?_) d
  rw [locking_apply, postMarker_apply]
  split
  · rename_i channel user at_
    rw [if_neg]
    rintro ⟨rfl, rfl⟩
    exact h _ ho at_ rfl
  · rfl

theorem Stored.postMarker (h : Stored times p lead d q vs w) (c u : Int) : w.postMarker c u =
      if (p.channelID, p.fromID) = (c, u) then some times.marked else d.postMarker c u := by
  rw [h.eq]
  change ((Write.updateChannelPostMarker p.channelID p.fromID times.marked).apply (locking.replay
    ((postWrites times p (d.stateOf p.channelID)).take 4) d)).postMarker c u = _
  rw [postMarker_apply, postMarker_replay (by simp [postWrites])]

theorem Effect.postMarker {c u : Int} (h : Effect caps t d r vs w)
    (hnew : ∀ times p lead q, t.posting = some (times, p, lead) → r = .posted q → q.dup = false →
      (p.channelID, p.fromID) ≠ (c, u)) : w.postMarker c u = d.postMarker c u := by
  obtain ⟨times, p, lead, q, ht, hr, hstored⟩ | ⟨_, _, _, _, id, -, rfl⟩ | hsame := h.stream
  · rw [hstored.postMarker, if_neg (hnew times p lead q ht hr hstored.dup)]
  · exact postMarker_replay (by simp [createWrites]) d
  · rw [DB.postMarker, hsame.markers, DB.postMarker]

def PassesSlowMode (v : DB) (channel user at_ : Int) : Prop :=
  ((checkSlowMode channel user at_).alone locking.toRows v).1 = .ok ()

theorem slowModeWait_spec {s at_ last n : Int} (h : slowModeWait s at_ last = some n) :
    1 ≤ n ∧ ∀ later, at_ + n * second ≤ later → slowModeWait s later last = none := by
  simp only [slowModeWait] at h ⊢
  split at h
  · rename_i hpos
    cases h
    unfold second at *
    refine ⟨by omega, fun later hlater => if_neg (by omega)⟩
  · cases h

theorem Post.Refused.wait {n : Int} (h : p.Refused times (.slowModeWait n) vs) :
    1 ≤ n ∧ ∃ v, vs.getLast? = some v ∧ ∀ later, times.slow + n * second ≤ later →
      PassesSlowMode v p.channelID p.fromID later := by
  obtain ⟨v, s, last, hv, hstate, hs, hwait⟩ := h
  obtain ⟨hn, hlater⟩ := slowModeWait_spec hwait
  refine ⟨hn, v, hv, fun later hle => ?_⟩
  change (Prog.alone locking.toRows (Prog.orFail ChannelErr.notMember
    (v.slowModePostState p.channelID p.fromID) >>= _) v).1 = _
  have hnone : (some last).bind (slowModeWait s later) = none := hlater later hle
  rw [hstate]
  change (Prog.alone locking.toRows (ite (0 < s) _ (pure ()) : Body Unit) v).1 = _
  rw [if_pos hs, hnone]
  rfl

/-! ## The runs -/

/-- A new post of a plain member under an interval comes that much later than the stamp of the
user's last new post, and a post that is refused has to wait no longer than it is told. -/
theorem slow_mode_spaces_posts {caps : Caps} {d₀ : DB}
    {c : Config DB Lock Write Empty Empty (Except ChannelErr Reply × List DB) Call}
    (hc : Reachable locking.toRows (fun t => (code caps t).watched) d₀ c) :
    (∀ before k between r after, c.log = before ++ k :: (between ++ r :: after) →
      ∀ times' p' lead' vs' times p lead vs, NewPost k times' p' lead' vs' →
        NewPost r times p lead vs → p'.channelID = p.channelID → p'.fromID = p.fromID →
        (∀ k' ∈ between, ∀ times'' p'' lead'' vs'', NewPost k' times'' p'' lead'' vs'' →
          (p''.channelID, p''.fromID) ≠ (p.channelID, p.fromID)) →
        ∀ s, 0 < s → p.interval lead vs = some s → times'.marked + s * second ≤ times.slow) ∧
    ∀ r ∈ c.log, ∀ times p lead n vs, r.call.posting = some (times, p, lead) →
      r.outcome.answer = some (.error (.slowModeWait n), vs) →
      1 ≤ n ∧ ∃ v, vs.getLast? = some v ∧ ∀ later, times.slow + n * second ≤ later →
        PassesSlowMode v p.channelID p.fromID later := by
  obtain ⟨hleads, hrecords⟩ := watched_records (code_effect caps) hc
  have hstored : ∀ r ∈ c.log, ∀ times p lead vs, NewPost r times p lead vs →
      ∃ q, Stored times p lead r.pre q vs r.post := by
    intro r hr times p lead vs hnew
    obtain ⟨q, hanswer, hdup⟩ := hnew.posted
    have heffect : Effect caps r.call r.pre (.posted q) vs r.post :=
      watched_answer (code_effect caps) hc hr hanswer
    exact ⟨q, heffect.stored hnew.call hdup⟩
  refine ⟨?_, fun r hr times p lead n vs ht hanswer => ?_⟩
  · intro before k between r after hlog times' p' lead' vs' times p lead vs hk hr hchannel huser
      hbetween s hs hreads
    rw [hlog] at hleads hrecords hstored
    obtain ⟨m, -, -, hrest⟩ := leads_append.mp hleads
    obtain ⟨m', hleads', hpre, -⟩ := leads_append.mp hrest
    obtain ⟨_, hk⟩ := hstored k (by simp) times' p' lead' vs' hk
    obtain ⟨_, hr⟩ := hstored r (by simp) times p lead vs hr
    -- The stamp of `k` stands in the marker up to `r`.
    have hmarker : r.pre.postMarker p.channelID p.fromID = some times'.marked := by
      rw [hpre]
      refine hleads'.invariant (P := fun d => d.postMarker p.channelID p.fromID =
        some times'.marked) (fun k' hk' hstamp => ?_) (by
          rw [hk.postMarker, if_pos (by rw [hchannel, huser])])
      obtain ⟨reply, vs'', hdone, heffect⟩ | hsame := hrecords k' (by simp [hk'])
      · rw [← hstamp]
        have heffect : Effect caps k'.call k'.pre reply vs'' k'.post := heffect
        refine heffect.postMarker fun times'' p'' lead'' q ht hreply hdup => ?_
        refine hbetween k' hk' times'' p'' lead'' vs'' ⟨ht, q, ?_, hdup⟩
        rw [hdone, ← hreply]
        rfl
      · rw [hsame, hstamp]
    exact hr.slow s hs hreads _ hmarker
  · have hrefused : Refusal caps r.call (.slowModeWait n) vs :=
      watched_answer (code_effect caps) hc hr hanswer
    cases hcall : r.call with
    | post times' p' | send times' limited p' =>
      rw [hcall] at ht hrefused
      simp only [Call.posting, Option.some.injEq, Prod.mk.injEq] at ht
      obtain ⟨rfl, rfl, -⟩ := ht
      exact Post.Refused.wait hrefused
    | _ =>
      rw [hcall] at ht
      cases ht

def slowGroup : DB where
  channels := [{ id := 7, creatorID := 1, megagroup := true, slowmodeSeconds := 10 }]
  states := [{ channelID := 7 }]
  participants := [{ channelID := 7, userID := 1, role := 2 }, { channelID := 7, userID := 2 }]

def hi : Post := { channelID := 7, fromID := 2, text := "hi" }

def hiAt (n : Int) : PostTimes := ⟨0, 0, 0, n * second, n * second⟩

def threePosts : List (Move Call) :=
  [Move.begin 0 (Call.post (hiAt 1) hi)] ++ replicate 14 (Move.run 0) ++
    [Move.begin 0 (Call.post (hiAt 12) hi)] ++ replicate 14 (Move.run 0) ++
    [Move.begin 0 (Call.post (hiAt 15) hi)] ++ replicate 9 (Move.run 0)

def hiPosted (n : Int) : Reply := .posted {
  message := { channelID := 7, localID := n, fromID := 2, date := 0, message := "hi" }
  pts := n, dup := false }

def intervalLog (log : List WatchedRecord) :
    List (Call × Option (Except ChannelErr Reply × Option Int)) :=
  log.map fun r => (r.call, r.outcome.answer.map fun x => (x.1, hi.interval 0 x.2))

theorem slow_mode_spaces_posts_group :
    ∃ c, Reachable locking.toRows (fun t => (code {} t).watched) slowGroup c ∧
      ∃ k r r', c.log = [k, r, r'] ∧
        (∃ vs, NewPost r (hiAt 12) hi 0 vs ∧ hi.interval 0 vs = some 10 ∧
          (hiAt 1).marked + 10 * second ≤ (hiAt 12).slow) ∧
        ∃ vs v, r'.outcome.answer = some (.error (.slowModeWait 7), vs) ∧ vs.getLast? = some v ∧
          PassesSlowMode v 7 2 (22 * second) := by
  have hplay : ((Board.start slowGroup 1).play locking.toRows
      (fun t => (code {} t).watched) (fun _ _ _ _ => true) threePosts).any (fun b =>
        intervalLog b.log = [(.post (hiAt 1) hi, some (.ok (hiPosted 1), some 10)),
          (.post (hiAt 12) hi, some (.ok (hiPosted 2), some 10)),
          (.post (hiAt 15) hi, some (.error (.slowModeWait 7), some 10))]) := by decide +kernel
  obtain ⟨b, hb, hlog⟩ := Board.exists_board (fun _ _ _ => rfl) hplay
  obtain ⟨k, rest, hlog', hk, hrest⟩ := map_eq_cons_iff.mp (of_decide_eq_true hlog)
  obtain ⟨r, rest, rfl, hr, hrest⟩ := map_eq_cons_iff.mp hrest
  obtain ⟨r', rest, rfl, hr', hrest⟩ := map_eq_cons_iff.mp hrest
  obtain rfl := map_eq_nil_iff.mp hrest
  have hlog' : b.config.log = [k, r, r'] := hlog'
  simp only [Prod.mk.injEq, Option.map_eq_some_iff, Prod.exists] at hk hr hr'
  obtain ⟨hkcall, x, vs, hkanswer, rfl, -⟩ := hk
  obtain ⟨hrcall, y, vs', hranswer, rfl, hinterval⟩ := hr
  obtain ⟨hrcall', z, vs'', hranswer', rfl, -⟩ := hr'
  obtain ⟨hspaced, hwait⟩ := slow_mode_spaces_posts hb.reachable
  have hknew : NewPost k (hiAt 1) hi 0 vs := ⟨by rw [hkcall]; rfl, _, hkanswer, rfl⟩
  have hrnew : NewPost r (hiAt 12) hi 0 vs' := ⟨by rw [hrcall]; rfl, _, hranswer, rfl⟩
  have hle :=
    hspaced [] k [] r [r'] hlog' _ _ _ _ _ _ _ _ hknew hrnew rfl rfl (by simp) 10 (by decide)
    hinterval
  obtain ⟨-, v, hv, hpasses⟩ := hwait r' (by simp [hlog']) (hiAt 15) hi 0 7 vs''
    (by rw [hrcall']; rfl) hranswer'
  exact ⟨b.config, hb.reachable, k, r, r', hlog', ⟨vs', hrnew, hinterval, hle⟩, vs'', v,
    hranswer', hv, hpasses _ (by decide)⟩

end TelegramServer.Channels
