import TelegramServer.Channels.Discipline

/-!
# Posting rights at commit

A post checks the poster's row under the `channel_state` lock, which rights mutations do not
take, and touches the row itself only at its end, by an update that finds the row by key
alone. A ban or demotion that commits in between is not seen.
-/

namespace TelegramServer.Channels

open Tx Tx.Locking List

variable {redo : List Write} {Q : Int → List Lock → List Write → (DB → Prop) → Prop} {c now u : Int}
  {d : DB} {o : Write} {ok : List Lock → DB → DB → Prop}

/-- What `checkPostRights` asks: a row that is not banned and, in a broadcast channel, an
admin's. -/
def DB.mayPost (d : DB) (channel user now : Int) : Bool :=
  (d.channelParticipantByUser channel user).any fun p =>
    !p.banned now && (d.channelMegagroup channel = some true ||
      d.channelMegagroup channel = some false && 1 ≤ p.role)

def DB.unbanned (d : DB) (channel user now : Int) : Bool :=
  (d.channelParticipantByUser channel user).all fun p => !p.banned now

def DB.isAdmin (d : DB) (channel user : Int) : Bool :=
  (d.channelParticipantByUser channel user).all fun p => 1 ≤ p.role

/-- What a commit may do beside a post that holds `channel_state` and has not yet touched its
poster's row: it neither bans the poster nor, outside megagroups, demotes them. -/
def Undisturbed : Call → List Lock → DB → DB → Prop
  | .post times p, held, d, d' =>
    .state p.channelID ∈ held → .participant p.channelID p.fromID ∉ held →
      (d.unbanned p.channelID p.fromID times.checked →
        d'.unbanned p.channelID p.fromID times.checked) ∧
      (d.channelMegagroup p.channelID ≠ some true → d.isAdmin p.channelID p.fromID →
        d'.isAdmin p.channelID p.fromID)
  | _, _, _, _ => True

instance : (t : Call) → (held : List Lock) → (d d' : DB) → Decidable (Undisturbed t held d d')
  | .post .., _, _, _ => inferInstanceAs (Decidable (_ → _ → (_ → _) ∧ (_ → _ → _)))
  | .setRole .., _, _, _ | .setBan .., _, _, _ | .leave .., _, _, _ | .joinByInvite .., _, _, _
  | .joinByUsername .., _, _, _ | .addMembers .., _, _, _ | .create .., _, _, _
  | .setSlowMode .., _, _, _ | .editUsername .., _, _, _ | .send .., _, _, _ => instDecidableTrue

theorem undisturbed_refl (t : Call) (held : List Lock) (d : DB) : Undisturbed t held d d := by
  cases t with
  | post times p => exact fun _ _ => ⟨id, fun _ => id⟩
  | _ => trivial

theorem mayPost_iff : d.mayPost c u now ↔
    d.isChannelMember c u ∧ d.unbanned c u now ∧ (d.channelMegagroup c = some true ∨
      d.channelMegagroup c = some false ∧ d.isAdmin c u) := by
  simp only [DB.mayPost, DB.isChannelMember, DB.unbanned, DB.isAdmin]
  cases d.channelParticipantByUser c u with
  | none | some => simp

theorem mayPost_later {later : Int} (h : d.mayPost c u now) (hle : now ≤ later) :
    d.mayPost c u later := by
  obtain ⟨hm, hban, hrole⟩ := mayPost_iff.mp h
  refine mayPost_iff.mpr ⟨hm, ?_, hrole⟩
  unfold DB.unbanned ChannelParticipant.banned at *
  cases hp : d.channelParticipantByUser c u with
  | none => rfl
  | some p =>
    cases hu : p.bannedUntil with
    | none => simp [hu]
    | some until_ =>
      simp only [hp, hu, Option.all_some, Option.any_some, Bool.not_eq_true',
        decide_eq_false_iff_not] at hban ⊢
      omega

section Kept

variable {times : PostTimes} {p : Post} {held : List Lock}

def DB.checked (d : DB) (channel user now : Int) : Prop :=
  d.unbanned channel user now ∧ (d.channelMegagroup channel = some true ∨
    d.channelMegagroup channel = some false ∧ d.isAdmin channel user)

theorem kept_mayPost (hl : .participant c u ∈ held) :
    locking.Kept ok held fun d => d.mayPost c u now := by
  intro d d' h hg hs _
  have hrow : d.channelParticipantByUser c u = d'.channelParticipantByUser c u := hs _ hl
  obtain ⟨hm, hban, hrole⟩ := mayPost_iff.mp h
  refine mayPost_iff.mpr ⟨?_, ?_, ?_⟩
  · simpa only [DB.isChannelMember, ← hrow] using hm
  · simpa only [DB.unbanned, ← hrow] using hban
  · obtain hkind | ⟨hkind, hadmin⟩ := hrole
    · exact .inl (hg.megagroup c _ hkind)
    · exact .inr ⟨hg.megagroup c _ hkind, by simpa only [DB.isAdmin, ← hrow] using hadmin⟩

/-- The poster of `p` passes the check. -/
abbrev Cleared (times : PostTimes) (p : Post) (d : DB) : Prop :=
  d.checked p.channelID p.fromID times.checked

variable (hstate : .state p.channelID ∈ held) (hrow : .participant p.channelID p.fromID ∉ held)

include hstate hrow

theorem kept_checked : locking.Kept (Undisturbed (.post times p)) held
    (Cleared times p) := by
  rintro d d' ⟨hban, hrole⟩ hg _ hok
  obtain ⟨hban', hadmin'⟩ := hok hstate hrow
  refine ⟨hban' hban, ?_⟩
  obtain hkind | ⟨hkind, hadmin⟩ := hrole
  · exact .inl (hg.megagroup _ _ hkind)
  · exact .inr ⟨hg.megagroup _ _ hkind, hadmin' (by simp [hkind]) hadmin⟩

/-- Between the two reads of the check the poster's role is known and the channel's kind is not. -/
theorem kept_readRow (role : Int) : locking.Kept (Undisturbed (.post times p)) held fun d =>
    d.unbanned p.channelID p.fromID times.checked ∧
      (d.channelMegagroup p.channelID = some true ∨
        (1 ≤ role → d.isAdmin p.channelID p.fromID)) := by
  rintro d d' ⟨hban, hrole⟩ hg _ hok
  obtain ⟨hban', hadmin'⟩ := hok hstate hrow
  refine ⟨hban' hban, ?_⟩
  by_cases hkind : d.channelMegagroup p.channelID = some true
  · exact .inl (hg.megagroup _ _ hkind)
  · obtain hno | hadmin := hrole
    · exact absurd hno hkind
    · exact .inr fun hle => hadmin' hkind (hadmin hle)

end Kept

variable {held : List Lock}

theorem rely_updateRow {P : DB → Prop} {A B : Type} {l : Lock} {row : DB → Option A}
    {q : DB → B} {Q : B → List Lock → List Write → (DB → Prop) → Prop}
    (ho : ∀ g ∈ o.guards, g = l ∨ g ∈ held) (hkept : locking.Kept ok held P)
    (hkept' : locking.Kept ok (l :: held) P)
    (hnone : ∀ d, row (locking.replay redo d) = none → Q (q (locking.replay redo d)) held redo P)
    (hsome : ∀ b, Q b (l :: held) (redo ++ [o]) P) :
    locking.rely ok (updateRow l row o q) held redo P Q := by
  intro d hd
  cases hrow : row (locking.replay redo d) with
  | none =>
    simp only [hrow, Option.isSome_none, Bool.false_eq_true, if_false, nil_append, append_nil]
    exact ⟨covered_nil _, P, hd, hkept, hnone d hrow⟩
  | some a =>
    simp only [hrow, Option.isSome_some, if_true]
    refine ⟨fun o' ho' g hg => ?_, P, hd, hkept', hsome _⟩
    rw [mem_singleton.mp ho'] at hg
    simpa using ho g hg

/-! ## The post -/

def Quiet (redo : List Write) : Prop := ∀ o ∈ redo, o.participant = none ∧ o.channel = none

theorem Quiet.append (h : Quiet redo) (ho : o.participant = none)
    (hc : o.channel = none) : Quiet (redo ++ [o]) := by
  intro o' ho'
  obtain ho' | ho' := mem_append.mp ho'
  · exact h o' ho'
  · rw [mem_singleton.mp ho']
    exact ⟨ho, hc⟩

theorem Quiet.participant (h : Quiet redo) (d : DB) (c u : Int) :
    (locking.replay redo d).channelParticipantByUser c u = d.channelParticipantByUser c u := by
  refine Rows.replay_frame (f := (·.channelParticipantByUser c u)) (fun o ho d => ?_) d
  rw [locking_apply, participant_apply, (h o ho).1, if_neg (by simp)]

theorem Quiet.megagroup (h : Quiet redo) (d : DB) (c : Int) :
    (locking.replay redo d).channelMegagroup c = d.channelMegagroup c := by
  refine Rows.replay_frame (f := (·.channelMegagroup c)) (fun o ho d => ?_) d
  rw [locking_apply, DB.channelMegagroup,
    channelByID_apply_of_ne ((h o ho).2 ▸ (Option.some_ne_none c).symm)]
  rfl

variable {times : PostTimes} {p : Post} {held : List Lock}

/-- Where a post stands between its check and its marker. -/
structure Checking (p : Post) (held : List Lock) (redo : List Write) : Prop where
  state : .state p.channelID ∈ held
  row : .participant p.channelID p.fromID ∉ held
  quiet : Quiet redo

theorem rely_checkKind (h : Checking p held redo) {row : ChannelParticipant}
    (hQ : Q row.role held redo (Cleared times p)) :
    locking.rely (Undisturbed (.post times p))
      (do
        let megagroup ← .query (·.channelMegagroup p.channelID)
        let megagroup ← .orFail .notMember megagroup
        if megagroup = false ∧ row.role < 1 then .fail .notMember
        else pure row.role : Body Int) held redo
      (fun d => d.unbanned p.channelID p.fromID times.checked ∧
        (d.channelMegagroup p.channelID = some true ∨
          (1 ≤ row.role → d.isAdmin p.channelID p.fromID))) Q := by
  refine rely_bind (rely_query_learn fun d hd => ?_)
  obtain ⟨hban, hrole⟩ := hd
  rw [h.quiet.megagroup]
  cases hkind : d.channelMegagroup p.channelID with
  | none => exact forget trivial
  | some megagroup =>
    by_cases hno : megagroup = false ∧ row.role < 1
    · refine forget (rely_bind (rely_orFail fun m hm => ?_))
      cases hm
      rw [if_pos hno]
      trivial
    · refine ⟨_, ?_, kept_checked h.state h.row, rely_bind (rely_orFail fun m hm => ?_)⟩
      · refine ⟨hban, ?_⟩
        cases megagroup with
        | true => exact .inl hkind
        | false =>
          have hle : 1 ≤ row.role := by
            by_contra hlt
            exact hno ⟨rfl, Int.not_le.mp hlt⟩
          exact .inr ⟨hkind, hrole.resolve_left (by simp [hkind]) hle⟩
      · cases hm
        rw [if_neg hno]
        exact hQ

theorem rely_checkPostRights (h : Checking p held redo)
    (hQ : ∀ role, Q role held redo (Cleared times p)) :
    locking.rely (Undisturbed (.post times p))
      (checkPostRights p.channelID p.fromID times.checked) held redo (fun _ => True) Q := by
  unfold checkPostRights
  refine rely_bind (rely_query_learn fun d _ => ?_)
  rw [h.quiet.participant]
  cases hrow : d.channelParticipantByUser p.channelID p.fromID with
  | none => exact forget trivial
  | some row =>
    cases hban : row.banned times.checked with
    | true =>
      refine forget (rely_bind (rely_orFail fun r hr => ?_))
      cases hr
      rw [if_pos hban]
      trivial
    | false =>
      refine ⟨_, ?_, kept_readRow h.state h.row row.role, rely_bind (rely_orFail fun r hr => ?_)⟩
      · exact ⟨by simp [DB.unbanned, hrow, hban], .inr fun hle => by simp [DB.isAdmin, hrow, hle]⟩
      · cases hr
        rw [if_neg (by simp [hban])]
        exact rely_checkKind h (hQ _)

theorem reads_checkPostRights (channel user now : Int) :
    (checkPostRights channel user now).Reads := by
  refine Prog.reads_queryOrFail fun r => ?_
  split
  · trivial
  refine Prog.reads_queryOrFail fun m => ?_
  split <;> trivial

theorem reads_checkSlowMode (channel user at_ : Int) : (checkSlowMode channel user at_).Reads := by
  refine Prog.reads_queryOrFail fun r => ?_
  obtain ⟨slowmodeSeconds, last⟩ := r
  simp only
  split
  · split <;> trivial
  · trivial

theorem reads_checkPostLimits (times : PostTimes) (p : Post) (role : Int) :
    (checkPostLimits times p role).Reads := by
  refine Prog.reads_queryOrFail fun c => ?_
  split
  · split
    · trivial
    · split
      · exact reads_checkSlowMode _ _ _
      · trivial
  · trivial

theorem rely_insertPost (h : Checking p held redo)
    {Q : Int × Int → List Lock → List Write → (DB → Prop) → Prop}
    (hQ : ∀ r held' redo', Checking p held' redo' →
      Q r held' redo' (Cleared times p)) :
    locking.rely (Undisturbed (.post times p)) (insertPost times p) held redo
      (Cleared times p) Q := by
  unfold insertPost bumpChannelState
  have hlocked : Checking p (.state p.channelID :: held)
      (redo ++ [Write.bumpChannelState p.channelID]) :=
    ⟨by simp, by simp [h.row], h.quiet.append rfl rfl⟩
  have hkept : locking.Kept (Undisturbed (.post times p)) (.state p.channelID :: held) _ :=
    kept_checked hlocked.state hlocked.row
  -- All three writes stand under `channel_state` alone.
  have hguard : ∀ l ∈ [Lock.state p.channelID], l ∈ Lock.state p.channelID :: held := by simp
  refine rely_bind (rely_bind (rely_updateRow (by simp) (kept_checked h.state h.row) hkept
    (fun d hnone => ?_) fun s => ?_))
  · rw [hnone]
    trivial
  · refine rely_bind (rely_orFail fun s _ => ?_)
    refine rely_bind (rely_exec hkept hguard fun _ _ => ?_)
    refine rely_bind (rely_exec hkept hguard fun _ _ => ?_)
    exact hQ _ _ _ ⟨hlocked.state, hlocked.row, (hlocked.quiet.append rfl rfl).append rfl rfl⟩

/-- The update of the poster's row finds it by key: where it finds one, the poster may post. -/
theorem rely_updateChannelPostMarker (h : Checking p held redo)
    {Q : Nat → List Lock → List Write → (DB → Prop) → Prop}
    (hnone : Q 0 held redo (Cleared times p))
    (hQ : ∀ held' redo', .participant p.channelID p.fromID ∈ held' →
      Q 1 held' redo' fun d => d.mayPost p.channelID p.fromID times.checked) :
    locking.rely (Undisturbed (.post times p))
      (updateChannelPostMarker p.channelID p.fromID times.marked) held redo
      (Cleared times p) Q := by
  intro d hd
  simp only [h.quiet.participant, rowCount]
  cases hrow : d.channelParticipantByUser p.channelID p.fromID with
  | none =>
    simp only [Option.isSome_none, Bool.false_eq_true, if_false, nil_append, append_nil]
    exact ⟨covered_nil _, _, hd, kept_checked h.state h.row, hnone⟩
  | some row =>
    simp only [Option.isSome_some, if_true]
    refine ⟨fun o ho l hl => ?_, _, ?_, kept_mayPost (by simp), hQ _ _ (by simp)⟩
    · rw [mem_singleton.mp ho] at hl
      have hguards : l ∈ [Lock.participant p.channelID p.fromID, .state p.channelID] := hl
      simp only [mem_cons, not_mem_nil, or_false] at hguards
      obtain rfl | rfl := hguards
      · simp
      · simp [h.state]
    · exact mayPost_iff.mpr ⟨by simp [DB.isChannelMember, hrow], hd⟩

theorem reads_checkReply (p : Post) : (checkReply p).Reads := by
  unfold checkReply
  split
  · refine Prog.reads_bind (Prog.reads_query _) fun found => ?_
    split <;> trivial
  · trivial

def MayPostAtEnd (times : PostTimes) (p : Post) (r : Finish Posted) (P : DB → Prop) : Prop :=
  match r with
  | .commit _ => ∀ d, P d → d.mayPost p.channelID p.fromID times.checked
  | .rollback _ => True

theorem rely_storePost (h : Checking p held redo) (role : Int) :
    locking.rely (Undisturbed (.post times p)) (storePost times p true role) held redo
      (Cleared times p)
      fun r _ _ P => MayPostAtEnd times p r P := by
  have hkept : locking.Kept (Undisturbed (.post times p)) held _ := kept_checked h.state h.row
  unfold storePost
  refine rely_bind (rely_of_reads (reads_checkPostLimits times p role) hkept fun _ => ?_)
  refine rely_bind (rely_of_reads (reads_checkReply p) hkept fun _ => ?_)
  refine rely_bind (rely_insertPost h fun r held' redo' h' => ?_)
  obtain ⟨pts, localID⟩ := r
  refine rely_bind (rely_bind (rely_updateChannelPostMarker h' trivial fun held' redo' hrow => ?_))
  refine rely_bind (rely_query (kept_mayPost hrow) fun _ _ => ?_)
  exact rely_bind (rely_orFail fun _ _ => fun _ hd => hd)

/-- Up to the authoritative check a post takes `channel_state` and nothing else. -/
theorem rely_ensureChannelState {Q : Unit → List Lock → List Write → (DB → Prop) → Prop}
    (hQ : ∀ held redo, (∀ l ∈ held, l = .state c) → Quiet redo → Q () held redo fun _ => True) :
    locking.rely ok (ensureChannelState c) [] [] (fun _ => True) Q := by
  intro d _
  cases hs : ((locking.replay [] d).channelState c).isSome with
  | true =>
    simp only [hs, if_true, append_nil]
    exact ⟨covered_nil _, _, trivial, kept_true _, hQ _ _ (by simp) (by simp [Quiet])⟩
  | false =>
    simp only [hs, Bool.false_eq_true, if_false, append_nil, nil_append]
    refine ⟨fun o ho l hl => ?_, _, trivial, kept_true _, hQ _ _ (by simp) ?_⟩
    · rw [mem_singleton.mp ho] at hl
      exact hl
    · exact fun o ho => by rw [mem_singleton.mp ho]; exact ⟨rfl, rfl⟩

theorem rely_postChannelMessageAs :
    locking.rely (Undisturbed (.post times p)) (postChannelMessageAs times p) [] [] (fun _ => True)
      fun r _ _ P => MayPostAtEnd times p r P := by
  unfold postChannelMessageAs postChannelMessage
  split
  · trivial
  refine rely_bind (rely_of_reads (reads_checkPostRights _ _ _) (kept_true _) fun _ => ?_)
  refine rely_bind (rely_ensureChannelState fun held redo hheld hquiet => ?_)
  refine rely_bind (rely_queryForUpdate fun d _ => forget ?_)
  refine rely_bind (rely_orFail fun state hstate => ?_)
  simp only [hstate, Option.isSome_some, if_true]
  have h : Checking p ([Lock.state p.channelID] ++ held) redo := by
    refine ⟨by simp, fun hl => ?_, hquiet⟩
    obtain hl | hl := mem_append.mp hl
    · simp at hl
    · cases hheld _ hl
  refine rely_bind (rely_checkPostRights h fun role => ?_)
  have hdup : ∀ m : ChannelMessage, locking.rely (Undisturbed (.post times p))
      (do
        let pts ← newChannelPostPts p.channelID m.localID
        pure (.rollback { message := m, pts, dup := true }) : Body (Finish Posted))
      ([Lock.state p.channelID] ++ held) redo (Cleared times p)
      fun r _ _ P => MayPostAtEnd times p r P := fun m => by
    refine rely_bind (rely_of_reads ?_ (kept_checked h.state h.row) fun pts => trivial)
    exact Prog.reads_bind (Prog.reads_query _) fun _ => Prog.reads_orFail _ _
  split
  · refine rely_bind (rely_query (kept_checked h.state h.row) fun d _ => ?_)
    cases (locking.replay redo d).channelMessageByRandomID p.channelID p.randomID with
    | none => exact rely_storePost h role
    | some m => exact hdup m
  · exact rely_storePost h role

def PostAllowed : Call → Finish Reply → DB → DB → Prop
  | .post times p, .commit _, d, _ => d.mayPost p.channelID p.fromID times.checked
  | _, _, _, _ => True

theorem rely_code (caps : Caps) (t : Call) :
    locking.rely (Undisturbed t) (code caps t) [] [] (fun _ => True) fun r _ redo P =>
      ∀ d, P d → PostAllowed t r d (locking.replay redo d) := by
  cases t with
  | post times p =>
    refine rely_bind (rely_mono rely_postChannelMessageAs fun r held redo P h => ?_)
    cases r with
    | commit a => exact h
    | rollback a => exact fun _ _ => trivial
  | _ => exact rely_of_covers (covers_code caps _) (fun _ => kept_true _) fun _ _ _ _ _ _ => trivial

/-- Where no commit bans the poster or, in a broadcast channel, demotes them beside a post that has
taken `channel_state`, every post commits with the right to post. -/
theorem post_rights_at_commit {caps : Caps} {d₀ : DB}
    {c : Config DB Lock Write Empty ChannelErr Reply Call}
    (hc : ReachableBeside locking.toRows (code caps) Undisturbed d₀ c)
    {r : Record DB Reply ChannelErr Call} (hr : r ∈ c.log) {times : PostTimes} {p : Post}
    (hcall : r.call = .post times p) {reply : Reply} (hdone : r.outcome = .done (.commit reply))
    {now : Int} (hnow : times.checked ≤ now) : r.pre.mayPost p.channelID p.fromID now := by
  obtain ⟨w, hQ, -⟩ := (rely_sound (rely_code caps) hc).records r hr _ hdone
  rw [hcall] at hQ
  exact mayPost_later hQ hnow

def twoMembers : DB where
  channels := [{ id := 7, creatorID := 1, megagroup := true }]
  states := [{ channelID := 7 }]
  participants := [{ channelID := 7, userID := 1, role := 2 }, { channelID := 7, userID := 2 }]

def hello : Call := .post ⟨0, 0, 0, 0, 0⟩ { channelID := 7, fromID := 2, text := "hello" }

def banForever : Call := .setBan 0 7 1 2 none true

def helloPosted : Reply := .posted {
  message := { channelID := 7, localID := 1, fromID := 2, date := 0, message := "hello" }
  pts := 1, dup := false }

/-- A ban runs from its begin to its commit between the post's check and the post's marker. -/
def banUnderPost : List (Move Call) :=
  [Move.begin 0 hello] ++ replicate 11 (Move.run 0) ++ [Move.begin 1 banForever] ++
    replicate 6 (Move.run 1) ++ replicate 3 (Move.run 0)

/-- The ban commits, and then the post of the banned user does. -/
theorem ban_commits_under_post : ∃ c, Reachable locking.toRows (code {}) twoMembers c ∧
    c.log.map (fun r => (r.call, r.outcome, r.pre.mayPost 7 2 0)) =
      [(banForever, .done (.commit .done), true), (hello, .done (.commit helloPosted), false)] :=
  Board.exists_run 2 banUnderPost (by decide +kernel)

def banBehindMarker : List (Move Call) :=
  [Move.begin 0 hello] ++ replicate 12 (Move.run 0) ++ [Move.begin 1 banForever] ++
    replicate 4 (Move.run 1) ++ replicate 2 (Move.run 0) ++ replicate 2 (Move.run 1)

theorem post_rights_before_ban :
    ∃ c, ReachableBeside locking.toRows (code {}) Undisturbed twoMembers c ∧
    ∃ r₁ r₂, c.log = [r₁, r₂] ∧ r₁.call = hello ∧ r₂.call = banForever ∧ r₁.pre.mayPost 7 2 5 := by
  obtain ⟨c, hc, hlog⟩ : ∃ c, ReachableBeside locking.toRows (code {}) Undisturbed twoMembers c ∧
      c.log.map (fun r => (r.call, r.outcome)) =
        [(hello, .done (.commit helloPosted)), (banForever, .done (.commit .done))] :=
    Board.exists_beside undisturbed_refl 2 banBehindMarker (by decide +kernel)
  obtain ⟨r₁, rest, hlog₁, hr₁, hrest⟩ := map_eq_cons_iff.mp hlog
  obtain ⟨r₂, rest, rfl, hr₂, hrest⟩ := map_eq_cons_iff.mp hrest
  obtain rfl := map_eq_nil_iff.mp hrest
  obtain ⟨hcall₁, hout₁⟩ := Prod.mk.inj hr₁
  refine ⟨c, hc, r₁, r₂, hlog₁, hcall₁, (Prod.mk.inj hr₂).1, ?_⟩
  exact post_rights_at_commit hc (by simp [hlog₁]) hcall₁ hout₁ (by decide)

end TelegramServer.Channels
