import TelegramServer.Secret.Handlers

/-!
# Reasoning about the methods

A call runs operations where they are legal for it. It keeps an advisory lock until it gives it
back, whatever the others do.
-/

namespace TelegramServer.Secret

open Conc List

variable {e : Outside} {s : World} {key : Int} {o : Op}

abbrev Past := Trace World Op

variable {C : Type} {s' : World}

/-- The rules by which a call runs the operations that are legal for it. -/
def opRules (inv : World → Prop) (ok : Op → World → Prop)
    (legal : Nat → C → Past → Op → World → Prop) : Rules World Op C where
  inv := inv
  ok := ok
  env s s' := ∃ e, outside s e = some s'
  may n c past o s s' := s' = o.apply n s ∧ legal n c past o s
  fresh _ _ := True

/-- What happens beside the calls touches the clock, `update_state` and `NOTIFY` only. -/
theorem outside_frame (h : outside s e = some s') : ∃ now updateStates dates notifyFails,
    s' = { s with now, updateStates, dates, notifyFails } := by
  cases e with
  | tick now =>
    obtain ⟨-, h⟩ := Option.ite_none_right_eq_some.mp h
    exact ⟨_, _, _, _, (Option.some.inj h).symm⟩
  | ensureUpdateState userID =>
    cases h
    unfold World.ensureUpdateState
    split
    · exact ⟨_, _, _, _, rfl⟩
    · exact ⟨_, _, _, _, rfl⟩
  | notify fails =>
    cases h
    exact ⟨_, _, _, _, rfl⟩

theorem outside_locks (h : outside s e = some s') : s'.locks = s.locks := by
  obtain ⟨now, updateStates, dates, notifyFails, rfl⟩ := outside_frame h
  rfl

theorem outside_chats (h : outside s e = some s') : s'.chats = s.chats := by
  obtain ⟨now, updateStates, dates, notifyFails, rfl⟩ := outside_frame h
  rfl

theorem mem_locks_apply {n me : Nat} (hn : n ≠ me) (o : Op) :
    (key, me) ∈ (o.apply n s).locks ↔ (key, me) ∈ s.locks := by
  have hunlock : ∀ (t : World) (k : Int), (key, me) ∈ (t.unlock k n).locks ↔
      (key, me) ∈ t.locks := by
    intro t k
    have hne : (key, me) ≠ (k, n) := fun heq => hn (Prod.mk.inj heq).2.symm
    simp [World.unlock, hne]
  cases o with
  | lock k =>
    simp only [Op.apply]
    split
    · rfl
    · simp [Ne.symm hn]
  | rollback k => exact hunlock s k
  | insertChat c =>
    simp only [Op.apply]
    split
    · exact hunlock _ _
    · exact hunlock _ _
  | commitEvent e => exact hunlock _ _
  | _ => rfl

theorem nodup_locks_apply {n : Nat} (o : Op) (h : (s.locks.map (·.1)).Nodup) :
    ((o.apply n s).locks.map (·.1)).Nodup := by
  have hunlock : ∀ (t : World) (k : Int), (t.locks.map (·.1)).Nodup →
      ((t.unlock k n).locks.map (·.1)).Nodup :=
    fun t k ht => ht.sublist (filter_sublist.map _)
  cases o with
  | lock key =>
    simp only [Op.apply]
    split
    · exact h
    · rename_i hfree
      rw [map_append, nodup_append]
      refine ⟨h, by simp, fun k hk k' hk' heq => hfree ?_⟩
      obtain rfl : k' = key := by simpa using hk'
      obtain ⟨x, hx, rfl⟩ := mem_map.mp hk
      exact any_eq_true.mpr ⟨x, hx, by simpa using heq⟩
  | rollback k => exact hunlock s k h
  | insertChat c =>
    simp only [Op.apply]
    split
    · exact hunlock s _ h
    · exact hunlock _ _ h
  | commitEvent e => exact hunlock _ _ h
  | _ => exact h

variable {inv : World → Prop} {ok : Op → World → Prop} {legal : Nat → C → Past → Op → World → Prop}
  {me : Nat} {c : C} {past : Past} {P : World → Prop} {A B : Type}

theorem kept_lock (key : Int) : (opRules inv ok legal).Kept me fun s => (key, me) ∈ s.locks := by
  rintro s s' - - (⟨e, he⟩ | ⟨n, c, past, o, hn, rfl, -⟩) hmem
  · exact outside_locks he ▸ hmem
  · exact (mem_locks_apply hn o).mpr hmem

variable {Q : B → Past → (World → Prop) → Prop} {answer : World → A}

theorem rely_last {Q : A → Past → (World → Prop) → Prop}
    (h : ∀ s, inv s → P s → ok o s → legal me c past o s ∧ ∃ P' : World → Prop, P' (o.apply me s) ∧
      (opRules inv ok legal).Kept me P' ∧ Q (answer s) (past ++ [⟨o, s, o.apply me s⟩]) P') :
    (opRules inv ok legal).rely me c (op me o answer) past P Q := by
  refine Rules.rely_atomic fun s hinv hs hok => ?_
  obtain ⟨hlegal, hrest⟩ := h s hinv hs hok
  exact ⟨⟨rfl, hlegal⟩, hrest⟩

theorem rely_op {f : A → Task B}
    (h : ∀ s, inv s → P s → ok o s → legal me c past o s ∧ ∃ P' : World → Prop, P' (o.apply me s) ∧
      (opRules inv ok legal).Kept me P' ∧
        (opRules inv ok legal).rely me c (f (answer s)) (past ++ [⟨o, s, o.apply me s⟩]) P' Q) :
    (opRules inv ok legal).rely me c (op me o answer >>= f) past P Q :=
  Rules.rely_bind (rely_last h)

theorem rely_lock {f : Unit → Task B} (h : ∀ s, inv s → P s → legal me c past (.lock key) s ∧
      ∃ P' : World → Prop, P' ((Op.lock key).apply me s) ∧ (opRules inv ok legal).Kept me P' ∧
        (opRules inv ok legal).rely me c (f ()) (past ++ [⟨.lock key, s, (Op.lock key).apply me s⟩])
          (fun t => (key, me) ∈ t.locks ∧ P' t) Q) :
    (opRules inv ok legal).rely me c (advisoryLock me key >>= f) past P Q := by
  refine Rules.rely_bind fun s hinv hs _ => ?_
  obtain ⟨hlegal, P', hP', hkept, hrest⟩ := h s hinv hs
  refine ⟨⟨rfl, hlegal⟩, ?_⟩
  dsimp only
  cases hlocked : s.locked key with
  | true => exact Rules.forget trivial
  | false =>
    refine ⟨fun t => (key, me) ∈ t.locks ∧ P' t, ⟨?_, hP'⟩, (kept_lock key).and hkept, hrest⟩
    simp [Op.apply, hlocked]

end TelegramServer.Secret
