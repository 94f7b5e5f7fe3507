import WotAv.Publication.Publisher

/-!
# What a reconciliation may replace

A request in flight that is sent for a registration either creates, or its
entity tag is that of content which a saved revision matches. Tags are never
reused, so this survives whatever is written in between.
-/

namespace WotAv.Publication.Publisher

open WotAv.Lib Throwing

-- Reading the log

/-- A revision that has been saved for an identifier, as producer or intent. -/
def Known (log : List Event) (id : String) (producer : ThingDescription) : Prop :=
  ∃ state record, .saved state ∈ log ∧ get id state.registrations = some record ∧
    (record.producer = producer ∨ ∃ intent, record.intent = some intent ∧ intent.producer = producer)

def Owned (log : List Event) (id : String) (td : ThingDescription) : Prop :=
  ∃ producer, Known log id producer ∧ matchesProducer td producer = .ok true

def lastSave (last : Bool) : Event → Bool
  | .saved _ | .crashed => false
  | .unsaved => true
  | _ => last

def unsaved (log : List Event) : Bool := log.foldl lastSave false

def hold (ids : List String) : Event → List String
  | .conflict id => id :: ids
  | .crashed => []
  | _ => ids

def held (log : List Event) : List String := log.foldl hold []

def InConflict (state : PublicationState) (id : String) : Prop :=
  ∃ record, get id state.registrations = some record ∧ record.status = .conflict

def Conflicted (log : List Event) (id : String) : Prop := ∃ state, .saved state ∈ log ∧ InConflict state id

section
variable {log : List Event} {e : Event} {id : String} {state : PublicationState}

@[simp] theorem unsaved_snoc : unsaved (log ++ [e]) = lastSave (unsaved log) e := by simp [unsaved]

@[simp] theorem held_snoc : held (log ++ [e]) = hold (held log) e := by simp [held]

theorem Known.snoc (h : Known log id producer) : Known (log ++ [e]) id producer := by
  obtain ⟨state, record, hs, hr, hp⟩ := h
  exact ⟨state, record, List.mem_append_left _ hs, hr, hp⟩

theorem Owned.snoc (h : Owned log id td) : Owned (log ++ [e]) id td := by
  obtain ⟨producer, hk, hm⟩ := h
  exact ⟨producer, hk.snoc, hm⟩

theorem conflicted_snoc (he : ∀ state, e ≠ .saved state) (h : Conflicted (log ++ [e]) id) : Conflicted log id := by
  obtain ⟨state, hs, hc⟩ := h
  rcases List.mem_append.mp hs with hs | hs
  · exact ⟨state, hs, hc⟩
  · exact absurd (List.mem_singleton.mp hs).symm (he state)

theorem conflicted_saved (h : Conflicted (log ++ [.saved state]) id) : Conflicted log id ∨ InConflict state id := by
  obtain ⟨other, hs, hc⟩ := h
  rcases List.mem_append.mp hs with hs | hs
  · exact .inl ⟨other, hs, hc⟩
  · cases List.mem_singleton.mp hs
    exact .inr hc

theorem snoc_split {before after : List Event} {x : Event} (h : log ++ [e] = before ++ x :: after) :
    (before = log ∧ x = e) ∨ ∃ rest, log = before ++ x :: rest := by
  rcases List.eq_nil_or_concat after with rfl | ⟨rest, last, rfl⟩
  · obtain ⟨rfl, hx⟩ := List.append_inj' h rfl
    exact .inl ⟨rfl, (List.singleton_inj.mp hx).symm⟩
  · rw [List.concat_eq_append, ← List.cons_append, ← List.append_assoc] at h
    exact .inr ⟨rest, (List.append_inj' h rfl).1⟩

end

-- The invariant

def UnsavedDelete (log : List Event) (write : Sent) : Prop :=
  write.request.body = .delete ∧ ∃ before after, log = before ++ .sent write :: after ∧ unsaved before

def Flight (directory : Directory) (log : List Event) (write : Sent) : Prop :=
  write.origin ≠ .preflight → write.request.precondition = .ifNoneMatch ∨
    ∃ tag, write.request.precondition = .ifMatch tag ∧ tag < directory.tags ∧
      (UnsavedDelete log write ∨
        ∀ td, directory.resources write.request.id = some (td, tag) → Owned log write.request.id td)

def Replaced (log : List Event) : Prop :=
  ∀ before write replaced after, log = before ++ .modified write replaced :: after → write.origin ≠ .preflight →
    ∀ td, replaced = some td → Owned before write.request.id td ∨ UnsavedDelete before write

def Selected (c : Context) (log : List Event) : Prop :=
  ∀ before write after publication, log = before ++ .sent write :: after →
    write.origin = .reconciliation publication →
    (∀ thing, candidate c publication write.request.id = some thing → thing.quarantined = false) ∧
      write.request.id ∉ held before ∧ ¬Conflicted before write.request.id

structure Kept (c : Context) (directory : Directory) (durable : Option PublicationState) (flying : List Sent)
    (state : Option PublicationState) (log : List Event) : Prop where
  tags : ∀ id td tag, directory.resources id = some (td, tag) → tag < directory.tags
  flights : ∀ write ∈ flying, Flight directory log write
  replaced : Replaced log
  selected : Selected c log
  stored : ∀ last, durable = some last → .saved last ∈ log
  sticky : ∀ id, Conflicted log id → (∃ last, durable = some last ∧ InConflict last id) ∧
    ∀ now, state = some now → InConflict now id
  held : ∀ id ∈ held log, ∃ now, state = some now ∧ InConflict now id

/-- Unless the last save has failed, every revision in memory has been saved. -/
def Knows (log : List Event) (state : Option PublicationState) : Prop :=
  unsaved log = false → ∀ now id record, state = some now → get id now.registrations = some record →
    Known log id record.producer ∧ ∀ intent, record.intent = some intent → Known log id intent.producer

def Free (c : Context) (publication : PreparedPublication) (id : String) (state : Option PublicationState) : Prop :=
  (∀ thing, candidate c publication id = some thing → thing.quarantined = false) ∧
    ∃ now, state = some now ∧ ∀ record, get id now.registrations = some record → record.status ≠ .conflict

def Current (directory : Directory) (id : String) (remote : DirectoryRecord) : Prop :=
  ∃ tag, remote.etag = some tag ∧ tag < directory.tags ∧
    ∀ td, directory.resources id = some (td, tag) → td = remote.td

def Matched (state : Option PublicationState) (id : String) (remote : DirectoryRecord) : Prop :=
  ∃ now record, state = some now ∧ get id now.registrations = some record ∧
    matchesProducer remote.td record.producer = .ok true

def Intended (state : Option PublicationState) (id : String) (plan : Plan) : Prop :=
  ∃ now record intent, state = some now ∧ get id now.registrations = some record ∧ record.intent = some intent ∧
    intent.producer = plan.producer

def At (c : Context) (directory : Directory) (state : Option PublicationState) (log : List Event) : Work → Prop
  | .idle | .starting _ => Knows log state
  | .publishing _ | .looping _ _ | .failing _ _ _ _ | .finishing _ => state.isSome ∧ Knows log state
  | .thing round id _ _ (.adopting remote) => Free c round.publication id state ∧ Knows log state ∧
    Current directory id remote ∧ Matched state id remote
  | .thing round id _ _ (.intending plan) => Free c round.publication id state ∧ Intended state id plan ∧
    ∀ remote, plan.remote = some remote → Current directory id remote ∧ Matched state id remote
  | .thing round id _ _ (.writing plan) | .thing round id _ _ (.confirming plan) =>
    Free c round.publication id state ∧ Knows log state ∧ Known log id plan.producer
  | .thing round id _ _ _ => Free c round.publication id state ∧ Knows log state

structure Inv (c : Context) (p : Publisher) : Prop where
  kept : Kept c p.directory p.durable p.flying p.state p.log
  at_ : At c p.directory p.state p.log p.work

structure Ready (c : Context) (publication : PreparedPublication) (id : String) (p : Publisher) : Prop where
  kept : Kept c p.directory p.durable p.flying p.state p.log
  free : Free c publication id p.state
  knows : Knows p.log p.state

variable {c : Context} {p p' : Publisher} {directory : Directory} {durable : Option PublicationState} {flying : List Sent}
  {state : Option PublicationState} {log : List Event} {id : String} {publication : PreparedPublication} {round : Round}

theorem inv_initial (h : Initial p) : Inv c p := by
  obtain ⟨ht, heq⟩ := h
  have hlog : p.log = p.durable.toList.map .saved := by rw [heq]
  have hnone : ∀ e ∈ p.log, ∃ stored, e = .saved stored := by
    rw [hlog]
    intro e he
    obtain ⟨stored, -, rfl⟩ := List.mem_map.mp he
    exact ⟨stored, rfl⟩
  have hno : ∀ before after x, p.log = before ++ x :: after → ∃ stored, x = .saved stored := by
    intro before after x hx
    exact hnone x (by rw [hx]; simp)
  have hflying : p.flying = [] := by rw [heq]
  have hstate : p.state = none := by rw [heq]
  have hwork : p.work = .idle := by rw [heq]
  have hheld : held p.log = [] := by
    rw [hlog]
    cases p.durable <;> rfl
  refine ⟨⟨ht, ?_, ?_, ?_, ?_, ?_, ?_⟩, ?_⟩
  · rw [hflying]
    exact fun _ h => nomatch h
  · intro before write replaced after h
    obtain ⟨_, h⟩ := hno _ _ _ h
    cases h
  · intro before write after publication h
    obtain ⟨_, h⟩ := hno _ _ _ h
    cases h
  · intro stored hs
    rw [hlog, hs]
    exact List.mem_singleton.mpr rfl
  · intro id hc
    obtain ⟨stored, hs, hc⟩ := hc
    rw [hlog] at hs
    obtain ⟨stored', hd, he⟩ := List.mem_map.mp hs
    cases he
    exact ⟨⟨stored, Option.mem_toList.mp hd, hc⟩, fun now hn => by rw [hstate] at hn; cases hn⟩
  · rw [hheld]
    exact fun _ h => nomatch h
  · rw [hwork]
    intro _ now id record hn
    rw [hstate] at hn
    cases hn

-- The Directory

theorem Flight.snoc {write : Sent} (h : Flight directory log write) : Flight directory (log ++ [e]) write := by
  intro ho
  refine (h ho).imp_right ?_
  rintro ⟨tag, hp, ht, hu | hc⟩
  · obtain ⟨hb, before, after, hlog, hu⟩ := hu
    exact ⟨tag, hp, ht, .inl ⟨hb, before, after ++ [e], by rw [hlog]; simp, hu⟩⟩
  · exact ⟨tag, hp, ht, .inr fun td hr => (hc td hr).snoc⟩

theorem modify_old {td : Option ThingDescription} (ht : tag < directory.tags)
    (h : (directory.modify other td).resources id = some (content, tag)) :
    directory.resources id = some (content, tag) := by
  unfold Directory.modify at h
  dsimp only at h
  split at h
  · obtain ⟨value, -, he⟩ := Option.map_eq_some_iff.mp h
    have : directory.tags = tag := (Prod.ext_iff.mp he).2
    omega
  · exact h

theorem modify_tags {td : Option ThingDescription}
    (h : ∀ id td tag, directory.resources id = some (td, tag) → tag < directory.tags) :
    ∀ id' td' tag, (directory.modify other td).resources id' = some (td', tag) →
    tag < (directory.modify other td).tags := by
  intro id' td' tag hr
  change tag < directory.tags + 1
  unfold Directory.modify at hr
  dsimp only at hr
  split at hr
  · obtain ⟨value, -, he⟩ := Option.map_eq_some_iff.mp hr
    have : directory.tags = tag := (Prod.ext_iff.mp he).2
    omega
  · exact Nat.lt_succ_of_lt (h _ _ _ hr)

theorem Flight.modify {td : Option ThingDescription} {write : Sent} (h : Flight directory log write) :
    Flight (directory.modify other td) log write := by
  intro ho
  refine (h ho).imp_right ?_
  rintro ⟨tag, hp, ht, hc⟩
  exact ⟨tag, hp, Nat.lt_succ_of_lt ht, hc.imp_right fun hc td hr => hc td (modify_old ht hr)⟩

variable {remote : DirectoryRecord}

theorem Current.modify {td : Option ThingDescription} (h : Current directory id remote) :
    Current (directory.modify other td) id remote := by
  obtain ⟨tag, he, ht, hc⟩ := h
  exact ⟨tag, he, Nat.lt_succ_of_lt ht, fun td hr => hc td (modify_old ht hr)⟩

theorem process_cases (d : Directory) (value : Option Json) (request : Request) :
    ((d.process value request).1 = d ∧ (d.process value request).2.1 = false) ∨
    ∃ td, (d.process value request).1 = d.modify request.id td ∧ (d.process value request).2.1 = true ∧
      request.precondition.admits (d.resources request.id) := by
  unfold Directory.process
  split
  · rename_i ha
    split
    · rename_i td _ _
      exact .inr ⟨td, rfl, rfl, ha⟩
    · exact .inl ⟨rfl, rfl⟩
  · exact .inl ⟨rfl, rfl⟩

-- What the log gains

theorem Replaced.snoc (h : Replaced log)
    (he : ∀ write replaced, e = .modified write replaced → write.origin ≠ .preflight →
    ∀ td, replaced = some td → Owned log write.request.id td ∨ UnsavedDelete log write) :
    Replaced (log ++ [e]) := by
  intro before write replaced after hlog ho td htd
  rcases snoc_split hlog with ⟨rfl, hx⟩ | ⟨rest, hrest⟩
  · exact he write replaced hx.symm ho td htd
  · exact h before write replaced rest hrest ho td htd

theorem Selected.snoc (h : Selected c log)
    (he : ∀ write publication, e = .sent write → write.origin = .reconciliation publication →
    (∀ thing, candidate c publication write.request.id = some thing → thing.quarantined = false) ∧
      write.request.id ∉ held log ∧ ¬Conflicted log write.request.id) : Selected c (log ++ [e]) := by
  intro before write after publication hlog ho
  rcases snoc_split hlog with ⟨rfl, hx⟩ | ⟨rest, hrest⟩
  · exact he write publication hx.symm ho
  · exact h before write rest publication hrest ho

def passing : Event → Bool
  | .sent _ | .modified _ _ => true
  | _ => false

theorem Knows.snoc (h : Knows log state) (he : lastSave (unsaved log) e = unsaved log) :
    Knows (log ++ [e]) state := by
  intro hu now id record hn hr
  rw [unsaved_snoc, he] at hu
  obtain ⟨hp, hi⟩ := h hu now id record hn hr
  exact ⟨hp.snoc, fun intent hintent => (hi intent hintent).snoc⟩

theorem Knows.passing (h : Knows log state) (he : passing e) : Knows (log ++ [e]) state :=
  h.snoc (by cases e <;> first | rfl | cases he)

section
variable (h : Kept c directory durable flying state log)
include h

theorem Kept.snoc (hr : Replaced (log ++ [e]))
    (hs : Selected c (log ++ [e])) (hsaved : ∀ state, e ≠ .saved state)
    (hheld : ∀ id ∈ hold (Publisher.held log) e, id ∈ Publisher.held log ∨ ∃ now, state = some now ∧ InConflict now id) :
    Kept c directory durable flying state (log ++ [e]) where
  tags := h.tags
  flights write hw := (h.flights write hw).snoc
  replaced := hr
  selected := hs
  stored last hl := List.mem_append_left _ (h.stored last hl)
  sticky id hc := h.sticky id (conflicted_snoc hsaved hc)
  held id hid := by
    rw [held_snoc] at hid
    exact (hheld id hid).elim (h.held id) fun hin => hin

theorem Kept.passing (he : passing e)
    (hr : Replaced (log ++ [e])) (hs : Selected c (log ++ [e])) :
    Kept c directory durable flying state (log ++ [e]) := by
  have hsame : hold (Publisher.held log) e = Publisher.held log := by
    cases e <;> first | rfl | cases he
  exact h.snoc hr hs (fun state hstate => by rw [hstate] at he; cases he) fun id hid => .inl (hsame ▸ hid)

theorem Kept.filter (keep : Sent → Bool) :
    Kept c directory durable (flying.filter keep) state log :=
  ⟨h.tags, fun write hw => h.flights write (List.mem_of_mem_filter hw), h.replaced, h.selected, h.stored, h.sticky, h.held⟩

theorem Kept.modify (other : String)
    (td : Option ThingDescription) :
    Kept c (directory.modify other td) durable flying state log :=
  ⟨modify_tags h.tags, fun write hw => (h.flights write hw).modify, h.replaced, h.selected, h.stored, h.sticky, h.held⟩

end

variable {write : Sent} {value : Option Json} {e : Event}

theorem process_kept (value : Option Json) (h : Kept c p.directory p.durable p.flying p.state p.log)
    (hw : write ∈ p.flying) :
    Kept c (process write value p).directory p.durable (process write value p).flying p.state (process write value p).log ∧
      ((process write value p).log = p.log ∨ ∃ replaced,
        (process write value p).log = p.log ++ [.modified write replaced]) := by
  have hf := h.flights write hw
  unfold process
  rcases process_cases p.directory value write.request with ⟨hd, hm⟩ | ⟨td, hd, hm, ha⟩
  · simp only [hd, hm, Bool.false_eq_true, if_false]
    exact ⟨h.filter _, .inl trivial⟩
  · simp only [hd, hm, if_true]
    refine ⟨((h.modify _ _).filter _).passing rfl (h.replaced.snoc ?_) (h.selected.snoc fun _ _ he => nomatch he), .inr ⟨_, rfl⟩⟩
    rintro _ _ he ho td htd
    cases he
    obtain ⟨⟨content, tag⟩, hr, rfl⟩ := Option.map_eq_some_iff.mp htd
    rcases hf ho with hp | ⟨tag', hp, -, hc⟩
    · rw [hp, hr] at ha
      cases ha
    · rw [hp, hr] at ha
      have htag : tag' = tag := by simpa [Precondition.admits] using ha
      exact hc.symm.imp_left fun hc => hc content (htag ▸ hr)

theorem Kept.sent (h : Kept c directory durable flying state log)
    (hf : Flight directory (log ++ [.sent write]) write)
    (hs : ∀ publication, write.origin = .reconciliation publication →
      (∀ thing, candidate c publication write.request.id = some thing → thing.quarantined = false) ∧
        write.request.id ∉ Publisher.held log ∧ ¬Conflicted log write.request.id) :
    Kept c directory durable (flying ++ [write]) state (log ++ [.sent write]) := by
  have hkept := h.passing (e := .sent write) rfl (h.replaced.snoc fun _ _ he => nomatch he) (h.selected.snoc fun w publication he ho => by
    cases he
    exact hs publication ho)
  refine { hkept with flights := fun w hw => ?_ }
  rcases List.mem_append.mp hw with hw | hw
  · exact hkept.flights w hw
  · rw [List.mem_singleton.mp hw]
    exact hf

-- What the memory gains

theorem Free.not_held (hfree : Free c publication id state) (h : Kept c directory durable flying state log) :
    id ∉ Publisher.held log ∧ ¬Conflicted log id := by
  obtain ⟨-, now, hn, hno⟩ := hfree
  constructor
  · intro hid
    obtain ⟨now', hn', record, hr, hc⟩ := h.held id hid
    rw [hn] at hn'
    cases hn'
    exact hno record hr hc
  · intro hid
    obtain ⟨record, hr, hc⟩ := (h.sticky id hid).2 now hn
    exact hno record hr hc

theorem Kept.touch (h : Kept c directory durable flying state log) (hfree : Free c publication id state)
    (f : PublicationState → PublicationState)
    (hf : ∀ now other, other ≠ id → get other (f now).registrations = get other now.registrations) :
    Kept c directory durable flying (state.map f) log := by
  obtain ⟨hheld, hcon⟩ := hfree.not_held h
  refine { h with sticky := fun other ho => ?_, held := fun other ho => ?_ }
  · obtain ⟨hd, hs⟩ := h.sticky other ho
    refine ⟨hd, fun now hn => ?_⟩
    obtain ⟨old, ho', rfl⟩ := Option.map_eq_some_iff.mp hn
    obtain ⟨record, hr, hc⟩ := hs old ho'
    exact ⟨record, (hf old other fun he => hcon (he ▸ ho)).trans hr, hc⟩
  · obtain ⟨now, hn, record, hr, hc⟩ := h.held other ho
    exact ⟨f now, by rw [hn]; rfl, record, (hf now other fun he => hheld (he ▸ ho)).trans hr, hc⟩

theorem Kept.saved {now : PublicationState} (h : Kept c directory durable flying (some now) log) :
    Kept c directory (some now) flying (some now) (log ++ [.saved now]) where
  tags := h.tags
  flights write hw := (h.flights write hw).snoc
  replaced := h.replaced.snoc fun _ _ he => nomatch he
  selected := h.selected.snoc fun _ _ he => nomatch he
  stored last hl := by
    cases hl
    exact List.mem_append_right _ (List.mem_singleton.mpr rfl)
  sticky id hc := by
    have hin : InConflict now id := (conflicted_saved hc).elim (fun hc => (h.sticky id hc).2 now rfl) fun hin => hin
    exact ⟨⟨now, rfl, hin⟩, fun other ho => by cases ho; exact hin⟩
  held id hid := h.held id (by rwa [held_snoc] at hid)

theorem knows_saved (now : PublicationState) : Knows (log ++ [.saved now]) (some now) := by
  intro _ other id record ho hr
  cases ho
  have hs : .saved now ∈ log ++ [.saved now] := List.mem_append_right _ (List.mem_singleton.mpr rfl)
  exact ⟨⟨now, record, hs, hr, .inl rfl⟩, fun intent hi => ⟨now, record, hs, hr, .inr ⟨intent, hi, rfl⟩⟩⟩

theorem Kept.unsaved (h : Kept c directory durable flying state log) :
    Kept c directory durable flying state (log ++ [.unsaved]) :=
  h.snoc (h.replaced.snoc fun _ _ he => nomatch he) (h.selected.snoc fun _ _ he => nomatch he)
    (fun _ he => Event.noConfusion he) fun _ hid => .inl hid

theorem knows_unsaved : Knows (log ++ [.unsaved]) state := by
  intro hu
  rw [unsaved_snoc] at hu
  cases hu

-- One registration

structure Sets (id : String) (record : RegistrationState) (f : PublicationState → PublicationState) : Prop where
  self : ∀ now, get id (f now).registrations = some record
  other : ∀ now other, other ≠ id → get other (f now).registrations = get other now.registrations

def recorded (id : String) (record : RegistrationState) (revisions : Nat) (now : PublicationState) : PublicationState :=
  { now with revision := now.revision + revisions, registrations := set id record now.registrations }

theorem recorded_sets : Sets id record (recorded id record revisions) :=
  ⟨fun _ => get_set_self _ _ _, fun _ _ h => get_set_other h _ _⟩

theorem run_register (record : RegistrationState) :
    (register id record : M Unit) p = (.ok (), { p with state := p.state.map (recorded id record 0) }) := rfl

theorem run_commit (record : RegistrationState) (work : Work) :
    (do register id record; persist; await work : M Unit) p =
      (.ok (), { p with state := p.state.map (recorded id record 1), work }) := by
  cases h : p.state <;> simp [register, persist, await, recorded, h]

variable {record : RegistrationState} {f : PublicationState → PublicationState} {rest : List String} {now : Nat}

theorem Free.touch (h : Free c publication id state) (hf : Sets id record f) (hr : record.status ≠ .conflict) :
    Free c publication id (state.map f) := by
  obtain ⟨hq, now, hn, -⟩ := h
  refine ⟨hq, f now, by rw [hn]; rfl, fun other ho => ?_⟩
  rw [hf.self] at ho
  cases ho
  exact hr

theorem Knows.touch (h : Knows log state) (hf : Sets id record f)
    (hr : unsaved log = false → Known log id record.producer ∧
      ∀ intent, record.intent = some intent → Known log id intent.producer) : Knows log (state.map f) := by
  intro hu now other found hn hfound
  obtain ⟨old, ho, rfl⟩ := Option.map_eq_some_iff.mp hn
  by_cases hid : other = id
  · subst hid
    rw [hf.self] at hfound
    cases hfound
    exact hr hu
  · rw [hf.other _ _ hid] at hfound
    exact h hu old other found ho hfound

def Runs (c : Context) (publication : PreparedPublication) (id : String) : Except String Unit × Publisher → Prop
  | (.ok _, p) => Inv c p
  | (.error _, p) => Ready c publication id p

theorem Free.some (h : Free c publication id state) : state.isSome := by
  obtain ⟨-, now, hn, -⟩ := h
  rw [hn]
  rfl

theorem Ready.registration (h : Ready c publication id p) (hr : p.registration id = some record) :
    record.status ≠ .conflict ∧ (unsaved p.log = false → Known p.log id record.producer ∧
      ∀ intent, record.intent = some intent → Known p.log id intent.producer) := by
  obtain ⟨-, now, hn, hno⟩ := h.free
  have hg : get id now.registrations = some record := by
    rw [Publisher.registration, hn] at hr
    exact hr
  exact ⟨hno record hg, fun hu => h.knows hu now id record hn hg⟩

theorem conclude_runs (h : Ready c round.publication id p) (action : Action) (code : Option String) :
    Runs c round.publication id (conclude round id rest action code p) :=
  ⟨h.kept, h.free.some, h.knows⟩

variable {work : Work}

section
variable (h : Ready c round.publication id p)
include h

theorem commit_runs (hr : record.status ≠ .conflict)
    (hk : unsaved p.log = false → Known p.log id record.producer ∧
      ∀ intent, record.intent = some intent → Known p.log id intent.producer)
    (hat : ∀ state, At c p.directory state p.log work ↔ Free c round.publication id state ∧ Knows p.log state) :
    Runs c round.publication id ((do register id record; persist; await work : M Unit) p) := by
  rw [run_commit]
  refine ⟨h.kept.touch h.free _ recorded_sets.other, (hat _).mpr ⟨h.free.touch recorded_sets hr, h.knows.touch recorded_sets hk⟩⟩

theorem retired_runs (hr : p.registration id = some record) :
    Runs c round.publication id ((do
      register id { record with status := .retired, failure := none, intent := none }
      persist
      await (.thing round id rest now .retiring) : M Unit) p) := by
  obtain ⟨-, hk⟩ := h.registration hr
  exact commit_runs h (fun hs => nomatch hs) (fun hu => ⟨(hk hu).1, fun _ hi => (nomatch hi)⟩) fun _ => Iff.rfl

theorem deleted_runs :
    Runs c round.publication id (deleted round id rest now p) := by
  unfold deleted
  simp only [run_get_bind]
  cases hr : p.registration id with
  | some record => exact retired_runs h hr
  | none => exact conclude_runs h _ _

end

-- The requests

section
variable (hm : c.contract.ownership = .etag)
include hm

theorem condition_etag {tag : Nat}
    (ht : remote.etag = some tag) : condition c remote = .ok (.etag tag) := by
  simp [condition, hm, ht]

theorem precondition_etag (tag : Nat) :
    Precondition.of c (.etag tag) = .ok (.ifMatch tag) := by
  simp [Precondition.of, hm]

theorem precondition_create : Precondition.of c .create = .ok .ifNoneMatch := by
  simp [Precondition.of, hm]

end

variable {guard : WriteCondition} {request : Request}

theorem delete_ok (h : Request.delete c id guard = .ok request) :
    request.id = id ∧ request.body = .delete ∧ Precondition.of c guard = .ok request.precondition := by
  obtain ⟨_, -, h⟩ := except_bind_ok h
  obtain ⟨precondition, hp, h⟩ := except_bind_ok h
  cases h
  exact ⟨rfl, rfl, hp⟩

theorem renew_ok {ttl : Option Nat} (h : Request.renew c id guard ttl = .ok request) :
    request.id = id ∧ Precondition.of c guard = .ok request.precondition := by
  unfold Request.renew at h
  split at h
  · split at h
    · cases h
    · obtain ⟨_, -, h⟩ := except_bind_ok h
      obtain ⟨precondition, hp, h⟩ := except_bind_ok h
      cases h
      exact ⟨rfl, hp⟩
  · cases h

theorem withTtl_id {ttl : Option Nat} (h : withTtl c document ttl = .ok td) : get "id" td = get "id" document := by
  unfold withTtl at h
  cases ttl with
  | none =>
    cases h
    rfl
  | some ttl =>
    dsimp only at h
    split at h
    · cases h
    · split at h
      · cases h
      · obtain ⟨contexts, -, h⟩ := except_bind_ok h
        obtain ⟨context, -, h⟩ := except_bind_ok h
        cases h
        rw [get_set_other (by decide), get_set_other (by decide)]

variable {td : ThingDescription}

theorem assertThingDescription_id (h : assertThingDescription c td = .ok ()) :
    ∃ id, get "id" td = some (.string id) := by
  unfold assertThingDescription at h
  split at h
  · rename_i id hid
    exact ⟨id, hid⟩
  · cases h

theorem put_ok {ttl : Option Nat} (h : Request.put c td guard ttl = .ok request) :
    get "id" td = some (.string request.id) ∧ Precondition.of c guard = .ok request.precondition := by
  unfold Request.put at h
  obtain ⟨_, hvalid, h⟩ := except_bind_ok h
  obtain ⟨document, hdoc, h⟩ := except_bind_ok h
  obtain ⟨_, -, h⟩ := except_bind_ok h
  obtain ⟨precondition, hp, h⟩ := except_bind_ok h
  have hdocument : get "id" document = get "id" td := (withTtl_id hdoc).trans (get_erase_other (by decide) _)
  obtain ⟨id, hid⟩ := assertThingDescription_id hvalid
  rw [hid] at hdocument
  simp only [hdocument] at h
  cases h
  exact ⟨hid, hp⟩

theorem assertOwned_ok {previous : Option RegistrationState}
    (h : assertOwned remote previous = .ok ()) :
    ∃ record, previous = some record ∧ (matchesProducer remote.td record.producer = .ok true ∨
      ∃ intent, record.intent = some intent ∧ matchesProducer remote.td intent.producer = .ok true) := by
  unfold assertOwned at h
  cases previous with
  | none => cases h
  | some record =>
    refine ⟨record, rfl, ?_⟩
    obtain ⟨same, hs, h⟩ := except_bind_ok h
    cases same with
    | true => exact .inl hs
    | false =>
      cases hi : record.intent with
      | none => simp only [hi] at h; cases h
      | some intent =>
        simp only [hi] at h
        obtain ⟨same, hs, h⟩ := except_bind_ok h
        cases same with
        | true => exact .inr ⟨intent, rfl, hs⟩
        | false => cases h

theorem send_runs (h : Ready c round.publication id p) (hid : request.id = id)
    (hf : ∀ write : Sent, write.request = request → Flight p.directory (p.log ++ [.sent write]) write)
    (hat : ∀ e, passing e → At c p.directory p.state (p.log ++ [e]) work) :
    Runs c round.publication id ((do send (.reconciliation round.publication) request; await work : M Unit) p) := by
  refine ⟨h.kept.sent (hf _ rfl) ?_, hat _ rfl⟩
  rintro publication ho
  cases ho
  rw [hid]
  obtain ⟨hheld, hcon⟩ := h.free.not_held h.kept
  exact ⟨h.free.1, hheld, hcon⟩

variable {remote : Option DirectoryRecord}

theorem retire_runs (hm : c.contract.ownership = .etag) (h : Ready c round.publication id p) (hr : ∀ record, remote = some record → Current p.directory id record) :
    Runs c round.publication id (retire c round id rest now remote p) := by
  unfold retire
  simp only [run_get_bind]
  cases remote with
  | none =>
    cases hp : p.registration id with
    | some record => exact retired_runs h hp
    | none => exact conclude_runs h _ _
  | some remote =>
    obtain ⟨tag, htag, ht, hcontent⟩ := hr remote rfl
    refine lift_cases (fun _ howned => ?_) fun _ => h
    rw [condition_etag hm htag]
    refine lift_cases (fun request hrequest => ?_) fun _ => h
    cases hrequest
    refine lift_cases (fun request hrequest => ?_) fun _ => h
    obtain ⟨hid, hbody, hpre⟩ := delete_ok hrequest
    rw [precondition_etag hm] at hpre
    refine send_runs h hid (fun write hw _ => .inr ⟨tag, by rw [hw]; exact (Except.ok.inj hpre).symm, ht, ?_⟩)
      fun _ he => ⟨h.free, h.knows.passing he⟩
    by_cases hu : unsaved p.log = true
    · exact .inl ⟨by rw [hw]; exact hbody, p.log, [], rfl, hu⟩
    · refine .inr fun td htd => ?_
      rw [hw, hid] at htd ⊢
      rw [hcontent td htd]
      obtain ⟨record, hrecord, hmatch⟩ := assertOwned_ok howned
      obtain ⟨hk, hi⟩ := (h.registration hrecord).2 (by simpa using hu)
      rcases hmatch with hmatch | ⟨intent, hintent, hmatch⟩
      · exact ⟨_, hk.snoc, hmatch⟩
      · exact ⟨_, (hi intent hintent).snoc, hmatch⟩

-- The parts of `reconcileThing`

theorem record_runs (h : Ready c round.publication id p) (hr : p.registration id = some record)
    (changed : RegistrationState)
    (hs : changed.status ≠ .conflict) (hp : changed.producer = record.producer)
    (hi : changed.intent = record.intent)
    (action : Action) (code : Option String) :
    Runs c round.publication id ((do register id changed; conclude round id rest action code : M Unit) p) := by
  obtain ⟨-, hk⟩ := h.registration hr
  have hfree : Free c round.publication id (p.state.map (recorded id changed 0)) := h.free.touch recorded_sets hs
  have hknows : Knows p.log (p.state.map (recorded id changed 0)) := h.knows.touch recorded_sets (by rw [hp, hi]; exact hk)
  exact ⟨h.kept.touch h.free (recorded id changed 0) recorded_sets.other, hfree.some, hknows⟩

theorem unchanged_runs (h : Ready c round.publication id p) (stale : Bool) (remote : Option DirectoryRecord) :
    Runs c round.publication id (unchanged round id rest stale remote p) := by
  unfold unchanged
  simp only [run_get_bind]
  cases remote with
  | none => exact conclude_runs h _ _
  | some remote =>
    cases hr : p.registration id with
    | none => exact conclude_runs h _ _
    | some record =>
      refine record_runs h hr
        (observed remote { record with status := if stale then .stale else .active, failure := none }) ?_ rfl rfl _ _
      cases stale <;> exact fun hs => nomatch hs

/-- The remote registration that a reconciliation goes on with. -/
def Accepted (p : Publisher) (id : String) (remote : Option DirectoryRecord) : Prop :=
  ∀ record, remote = some record → Current p.directory id record ∧ Matched p.state id record

variable {plan : Plan}

theorem intend_runs (h : Ready c round.publication id p) (hr : Accepted p id plan.remote) :
    Runs c round.publication id (intend c round id rest now plan p) := by
  unfold intend
  simp only [run_get_bind]
  have hstatus : ((p.registration id).getD (pending c round id plan)).status ≠ .conflict := by
    cases hreg : p.registration id with
    | none => exact fun hs => nomatch hs
    | some old => exact (h.registration hreg).1
  rw [run_commit]
  refine ⟨h.kept.touch h.free _ recorded_sets.other, h.free.touch recorded_sets hstatus, ?_, fun remote hremote => ?_⟩
  · obtain ⟨-, old, hold, -⟩ := h.free
    exact ⟨recorded id _ 1 old, _, _, by rw [hold]; rfl, recorded_sets.self _, rfl, rfl⟩
  · obtain ⟨hcurrent, old, found, hold, hfound, hmatch⟩ := hr remote hremote
    have hreg : p.registration id = some found := by
      rw [Publisher.registration, hold]
      exact hfound
    refine ⟨hcurrent, recorded id _ 1 old, _, by rw [hold]; rfl, recorded_sets.self _, ?_⟩
    rw [hreg]
    exact hmatch

theorem revise_runs (h : Ready c round.publication id p)
    (hr : Accepted p id remote)
    (native : ThingDescription) (observedAt : Option Nat) (freshUntil retainUntil : Nat) :
    Runs c round.publication id
      (revise c round id rest now native observedAt freshUntil retainUntil remote (p.registration id) p) := by
  unfold revise
  dsimp only
  refine lift_cases (fun digest _ => ?_) fun _ => h
  split
  · cases hreg : p.registration id with
    | none => exact h
    | some record =>
      cases remote.bind (·.expiresAt) with
      | none => exact h
      | some expiresAt =>
        dsimp only
        split
        · refine record_runs h hreg
            { record with status := if observedAt.isNone || now ≥ freshUntil then .stale else .active } ?_ rfl rfl _ _
          dsimp only
          split <;> exact fun hs => nomatch hs
        · exact h
  · split
    · exact unchanged_runs h _ _
    · exact intend_runs h hr

theorem proceed_runs (hm : c.contract.ownership = .etag) (h : Ready c round.publication id p) (hr : Accepted p id remote) :
    Runs c round.publication id (proceed c round id rest now remote p) := by
  unfold proceed
  simp only [run_get_bind]
  split
  · exact conclude_runs h _ _
  · split
    · exact retire_runs hm h fun record hrecord => (hr record hrecord).1
    · cases nativeThing (candidate c round.publication id) (p.registration id) with
      | none => exact h
      | some native => exact revise_runs h hr _ _ _ _

theorem got_runs (hm : c.contract.ownership = .etag) (h : Ready c round.publication id p) (hr : ∀ record, remote = some record → Current p.directory id record) :
    Runs c round.publication id (got c round id rest now remote p) := by
  unfold got
  simp only [run_get_bind]
  cases remote with
  | none => exact proceed_runs hm h fun _ he => nomatch he
  | some remote =>
    have hcurrent := hr remote rfl
    refine lift_cases (fun _ howned => ?_) fun _ => h
    obtain ⟨record, hrecord, hmatch⟩ := assertOwned_ok howned
    have hmatched : matchesProducer remote.td record.producer = .ok true → Accepted p id (some remote) := by
      rintro hsame other ⟨⟩
      obtain ⟨-, old, hold, -⟩ := h.free
      refine ⟨hcurrent, old, record, hold, ?_, hsame⟩
      rw [Publisher.registration, hold] at hrecord
      exact hrecord
    obtain ⟨hstatus, hknown⟩ := h.registration hrecord
    rw [hrecord]
    cases hi : record.intent with
    | none =>
      simp only [Option.bind_some, hi]
      refine proceed_runs hm h (hmatched (hmatch.resolve_right ?_))
      rintro ⟨intent, hintent, -⟩
      rw [hi] at hintent
      cases hintent
    | some intent =>
      simp only [Option.bind_some, hi]
      refine lift_cases (fun same hsame => ?_) fun _ => h
      cases same with
      | false =>
        refine proceed_runs hm h (hmatched (hmatch.resolve_right ?_))
        rintro ⟨other, hother, hotherSame⟩
        rw [hi] at hother
        cases hother
        rw [hsame] at hotherSame
        cases hotherSame
      | true =>
        simp only [if_true]
        split
        · exact h
        · rw [run_commit]
          have hadopted : (adopted now remote intent record).status ≠ .conflict := by
            unfold adopted observed
            dsimp only
            split <;> exact fun hs => nomatch hs
          refine ⟨h.kept.touch h.free _ recorded_sets.other, h.free.touch recorded_sets hadopted,
            h.knows.touch recorded_sets fun hu => ⟨(hknown hu).2 intent hi, fun _ he => (nomatch he)⟩, hcurrent, ?_⟩
          obtain ⟨-, old, hold, -⟩ := h.free
          exact ⟨recorded id _ 1 old, _, by rw [hold]; rfl, recorded_sets.self _, hsame⟩

theorem mergeProducer_id {remote previous : Option ThingDescription} {desired merged : ThingDescription}
    {value : Json}
    (h : mergeProducer remote previous desired = .ok merged) (hv : get "id" desired = some value) :
    get "id" merged = some value := by
  unfold mergeProducer at h
  dsimp only at h
  split at h
  · obtain ⟨context, -, h⟩ := except_bind_ok h
    cases h
    rw [get_erase_other (by decide), get_set_other (by decide), get_assign, hv]
    rfl
  · cases h
    rw [get_erase_other (by decide), get_assign, hv]
    rfl

theorem planned_ok (hm : c.contract.ownership = .etag) (hid : get "id" plan.producer = some (.string id))
    (h : planned c id plan = .ok request) : request.id = id ∧
      ((plan.remote = none ∧ request.precondition = .ifNoneMatch) ∨
        ∃ remote, plan.remote = some remote ∧ ∀ tag, remote.etag = some tag →
          request.precondition = .ifMatch tag) := by
  have hput : putPlan c plan = .ok request → request.id = id ∧
      ((plan.remote = none ∧ request.precondition = .ifNoneMatch) ∨
        ∃ remote, plan.remote = some remote ∧ ∀ tag, remote.etag = some tag → request.precondition = .ifMatch tag) := by
    intro h
    obtain ⟨document, hdoc, h⟩ := except_bind_ok h
    obtain ⟨guard, hguard, h⟩ := except_bind_ok h
    obtain ⟨hrid, hpre⟩ := put_ok h
    rw [mergeProducer_id hdoc hid] at hrid
    refine ⟨by injection hrid with hrid; injection hrid with hrid; exact hrid.symm, ?_⟩
    cases hremote : plan.remote with
    | none =>
      rw [hremote] at hguard
      cases hguard
      rw [precondition_create hm] at hpre
      exact .inl ⟨rfl, (Except.ok.inj hpre).symm⟩
    | some remote =>
      refine .inr ⟨remote, rfl, fun tag htag => ?_⟩
      rw [hremote] at hguard
      change condition c remote = .ok guard at hguard
      rw [condition_etag hm htag] at hguard
      cases hguard
      rw [precondition_etag hm] at hpre
      exact (Except.ok.inj hpre).symm
  unfold planned at h
  split at h
  · rename_i remote _ _ hremote
    obtain ⟨guard, hguard, h⟩ := except_bind_ok h
    obtain ⟨hrid, hpre⟩ := renew_ok h
    refine ⟨hrid, .inr ⟨remote, hremote, fun tag htag => ?_⟩⟩
    rw [condition_etag hm htag] at hguard
    cases hguard
    rw [precondition_etag hm] at hpre
    exact (Except.ok.inj hpre).symm
  · exact hput h

theorem write_runs (hm : c.contract.ownership = .etag) (h : Ready c round.publication id p)
    (hu : unsaved p.log = false) (hid : get "id" plan.producer = some (.string id)) (hi : Intended p.state id plan)
    (hr : Accepted p id plan.remote) : Runs c round.publication id (Publisher.write c round id rest now plan p) := by
  have hknown : Known p.log id plan.producer := by
    obtain ⟨old, record, intent, hold, hfound, hintent, hproducer⟩ := hi
    exact hproducer ▸ (h.knows hu old id record hold hfound).2 intent hintent
  unfold Publisher.write
  refine lift_cases (fun request hrequest => ?_) fun _ => h
  obtain ⟨hrid, hpre⟩ := planned_ok hm hid hrequest
  refine send_runs h hrid (fun write hw _ => ?_) fun _ he => ⟨h.free, h.knows.passing he, hknown.snoc⟩
  rw [hw]
  rcases hpre with ⟨-, hpre⟩ | ⟨remote, hremote, hpre⟩
  · exact .inl hpre
  · obtain ⟨⟨tag, htag, ht, hcontent⟩, old, record, hold, hfound, hsame⟩ := hr remote hremote
    refine .inr ⟨tag, hpre tag htag, ht, .inr fun td htd => ?_⟩
    rw [hrid] at htd ⊢
    rw [hcontent td htd]
    exact ⟨_, (h.knows hu old id record hold hfound).1.snoc, hsame⟩

theorem Kept.same (h : Kept c directory durable flying state log)
    (hf : ∀ now, (f now).registrations = now.registrations) :
    Kept c directory durable flying (state.map f) log := by
  have hin : ∀ now id, InConflict now id → InConflict (f now) id := by
    rintro now id ⟨record, hr, hs⟩
    exact ⟨record, by rw [hf]; exact hr, hs⟩
  refine { h with sticky := fun id hc => ?_, held := fun id hid => ?_ }
  · obtain ⟨hd, hs⟩ := h.sticky id hc
    refine ⟨hd, fun now hn => ?_⟩
    obtain ⟨old, ho, rfl⟩ := Option.map_eq_some_iff.mp hn
    exact hin old id (hs old ho)
  · obtain ⟨now, hn, hc⟩ := h.held id hid
    exact ⟨f now, by rw [hn]; rfl, hin now id hc⟩

theorem Knows.same (h : Knows log state) (hf : ∀ now, (f now).registrations = now.registrations) :
    Knows log (state.map f) := by
  intro hu now id record hn hr
  obtain ⟨old, ho, rfl⟩ := Option.map_eq_some_iff.mp hn
  rw [hf] at hr
  exact h hu old id record ho hr

theorem Free.same (h : Free c publication id state) (hf : ∀ now, (f now).registrations = now.registrations) :
    Free c publication id (state.map f) := by
  obtain ⟨hq, now, hn, hno⟩ := h
  exact ⟨hq, f now, by rw [hn]; rfl, by rw [hf]; exact hno⟩

theorem confirm_runs (h : Ready c round.publication id p)
    (hk : Known p.log id plan.producer) :
    Runs c round.publication id (confirm c round id rest now plan remote p) := by
  unfold confirm
  cases remote with
  | none => exact h
  | some remote =>
    refine lift_cases (fun same _ => ?_) fun _ => h
    split
    · exact h
    · split
      · exact h
      · simp only [run_get_bind]
        cases hr : p.registration id with
        | none =>
          have hf : ∀ now : PublicationState, { now with revision := now.revision + 1 }.registrations = now.registrations :=
            fun _ => rfl
          exact ⟨h.kept.same hf, h.free.same hf, h.knows.same hf⟩
        | some record =>
          refine commit_runs h ?_ (fun _ => ⟨hk, fun _ he => nomatch he⟩) fun _ => Iff.rfl
          unfold confirmed observed
          dsimp only
          split <;> exact fun hs => nomatch hs

theorem reconcileThing_runs (h : Ready c round.publication id p) :
    Runs c round.publication id (reconcileThing c round id rest p) := by
  have hticks : Ready c round.publication id { p with ticks := p.ticks + 1 } := ⟨h.kept, h.free, h.knows⟩
  unfold reconcileThing reading
  rw [run_bind, run_get_bind, run_modify_bind]
  simp only [run_pure]
  cases c.clock p.ticks with
  | none => exact hticks
  | some now =>
    dsimp only
    split
    · exact hticks
    · exact lift_cases (fun _ _ => ⟨h.kept, h.free, h.knows⟩) fun _ => hticks

-- The reconciliation

theorem Kept.conflict (h : Kept c directory durable flying state log)
    (hin : ∃ now, state = some now ∧ InConflict now id) :
    Kept c directory durable flying state (log ++ [.conflict id]) := by
  refine h.snoc (h.replaced.snoc fun _ _ he => nomatch he) (h.selected.snoc fun _ _ he => nomatch he)
    (fun _ he => Event.noConfusion he) fun other ho => ?_
  rcases List.mem_cons.mp ho with rfl | ho
  · exact .inr hin
  · exact .inl ho

theorem run_caught (hr : p.registration id = some record) (code : String) : caught c round id rest code p = { p with
    ticks := p.ticks + 1
    state := p.state.map (recorded id (failing code (c.clock p.ticks) record) 1)
    log := if conflicting code then p.log ++ [.conflict id] else p.log
    work := .failing round id rest code } := by
  have hstate (changed : RegistrationState) : ((p.state.map (recorded id changed 0)).map fun state =>
      { state with revision := state.revision + 1 }) = p.state.map (recorded id changed 1) := by
    cases p.state <;> rfl
  unfold caught
  rw [hr, ← hstate]
  dsimp only
  by_cases hc : conflicting code
  · simp only [hc, if_true]
    rfl
  · simp only [hc, if_false, Bool.false_eq_true]
    rfl

theorem caught_inv (h : Ready c round.publication id p) (code : String) :
    Inv c (caught c round id rest code p) := by
  cases hr : p.registration id with
  | none =>
    unfold caught
    rw [hr]
    exact ⟨h.kept, h.free.some, h.knows⟩
  | some record =>
    obtain ⟨-, hknown⟩ := h.registration hr
    obtain ⟨-, now, hn, -⟩ := h.free
    have hsets : Sets id (failing code (c.clock p.ticks) record) (recorded id (failing code (c.clock p.ticks) record) 1) :=
      recorded_sets
    have hkept := h.kept.touch h.free (recorded id (failing code (c.clock p.ticks) record) 1) hsets.other
    have hknows : Knows p.log (p.state.map (recorded id (failing code (c.clock p.ticks) record) 1)) :=
      h.knows.touch hsets hknown
    have hsome : (p.state.map (recorded id (failing code (c.clock p.ticks) record) 1)).isSome := by
      rw [hn]
      rfl
    rw [run_caught hr]
    by_cases hc : conflicting code
    · rw [if_pos hc]
      refine ⟨hkept.conflict ⟨_, by rw [hn]; rfl, _, hsets.self _, ?_⟩, hsome, hknows.snoc rfl⟩
      simp [failing, hc]
    · rw [if_neg hc]
      exact ⟨hkept, hsome, hknows⟩

theorem attempting_inv {m : M Unit} (h : Runs c round.publication id (m p)) :
    Inv c (attempting c round id rest m p) := by
  unfold attempting
  generalize m p = r at h
  obtain ⟨r, p'⟩ := r
  cases r with
  | ok => exact h
  | error code => exact caught_inv h code

theorem loop_inv (h : Inv c p) (hw : p.work = .looping round places) : Inv c (loop c round p places) := by
  obtain ⟨hkept, hat⟩ := h
  rw [hw] at hat
  obtain ⟨hsome, hknows⟩ := hat
  cases places with
  | nil =>
    have hf : ∀ now : PublicationState, { now with
        inventoryRevision := round.publication.inventoryRevision, revision := now.revision + 1 }.registrations =
        now.registrations := fun _ => rfl
    have hstate : ((p.state.map fun state => { state with inventoryRevision := round.publication.inventoryRevision }).map
        fun state => { state with revision := state.revision + 1 }) = p.state.map fun state => { state with
          inventoryRevision := round.publication.inventoryRevision, revision := state.revision + 1 } := by
      cases p.state <;> rfl
    have heq : loop c round p [] = { p with
        state := p.state.map fun state => { state with
          inventoryRevision := round.publication.inventoryRevision, revision := state.revision + 1 }
        work := .finishing round } := by
      rw [← hstate]
      rfl
    rw [heq]
    exact ⟨hkept.same hf, by simpa using hsome, hknows.same hf⟩
  | cons id rest =>
    unfold loop
    dsimp only
    split
    · exact ⟨hkept, hsome, hknows⟩
    · rename_i hq
      split
      · exact ⟨hkept, hsome, hknows⟩
      · refine attempting_inv (reconcileThing_runs ⟨hkept, ⟨fun thing hthing => ?_, ?_⟩, hknows⟩)
        · unfold quarantined at hq
          rw [hthing] at hq
          cases hquarantined : thing.quarantined with
          | false => rfl
          | true => exact absurd (by simp [hquarantined]) hq
        · obtain ⟨now, hn⟩ := Option.isSome_iff_exists.mp hsome
          refine ⟨now, hn, fun record hrecord hs => hq ?_⟩
          have hreg : p.registration id = some record := by
            rw [Publisher.registration, hn]
            exact hrecord
          unfold quarantined
          simp [hreg, hs]

-- Saves

/-- Whatever a save does, its outcome is known of every revision in memory. -/
theorem store_kept (h : Kept c p.directory p.durable p.flying p.state p.log) (stored : Bool) :
    Kept c (store stored p).directory (store stored p).durable (store stored p).flying (store stored p).state
      (store stored p).log ∧ Knows (store stored p).log (store stored p).state := by
  unfold store
  cases stored with
  | false => exact ⟨h.unsaved, knows_unsaved⟩
  | true =>
    cases hs : p.state with
    | none => exact ⟨h.unsaved, knows_unsaved⟩
    | some now =>
      rw [hs] at h
      exact ⟨h.saved, knows_saved now⟩

theorem store_rest (stored : Bool) : (store stored p).directory = p.directory ∧ (store stored p).state = p.state ∧
    (store stored p).work = p.work ∧ (stored → p.state.isSome → unsaved (store stored p).log = false) := by
  unfold store
  cases stored with
  | false => exact ⟨rfl, rfl, rfl, fun h => nomatch h⟩
  | true =>
    cases hs : p.state with
    | none => exact ⟨rfl, hs, rfl, fun _ h => nomatch h⟩
    | some now => exact ⟨rfl, rfl, rfl, fun _ _ => by simp [lastSave]⟩

theorem at_free (h : At c directory state log (.thing round id rest now stage)) :
    Free c round.publication id state := by
  cases stage <;> exact h.1

theorem at_some (h : At c directory state log work) (hw : awaitsSave work) : state.isSome := by
  cases work with
  | thing round id rest now stage => exact (at_free h).some
  | failing | finishing => exact h.1
  | idle | starting | publishing | looping => cases hw

theorem validate_intent {memory : PublicationState} (hv : validateState c memory)
    (hr : get id memory.registrations = some record)
    (hi : record.intent = some intent) : get "id" intent.producer = some (.string id) := by
  unfold get at hr
  obtain ⟨⟨key, value⟩, hfind, rfl⟩ := Option.map_eq_some_iff.mp hr
  have hmem := List.mem_of_find?_eq_some hfind
  have hkey : key = id := by simpa using List.find?_some hfind
  subst hkey
  unfold validateState at hv
  simp only [Bool.and_eq_true, List.all_eq_true] at hv
  have := hv.2 _ hmem
  change value.intent = some intent at hi
  simp only [validateRegistration, validateIntent, hi, Option.all_some, Bool.and_eq_true, validateRevision,
    decide_eq_true_eq] at this
  exact this.2.1.1.1.1.2

theorem persisted_inv (hm : c.contract.ownership = .etag) (h : Inv c p) (hw : awaitsSave p.work)
    (result : Except String Unit)
    (stored : Bool) (hok : result = .ok () → stored = true ∧ p.state.all (validateState c)) :
    Inv c (persisted c result (store stored p)) := by
  obtain ⟨hkept, hat⟩ := h
  obtain ⟨hk, hknows⟩ := store_kept hkept stored
  obtain ⟨hdir, hstate, hwork, hsaved⟩ := store_rest stored (p := p)
  have hsome := at_some hat hw
  have hready : ∀ round id rest now stage, p.work = .thing round id rest now stage →
      Ready c round.publication id (store stored p) := by
    intro round id rest now stage hwork
    rw [hwork] at hat
    exact ⟨hk, by rw [hstate]; exact at_free hat, hknows⟩
  have hsome' : (store stored p).state.isSome := by rw [hstate]; exact hsome
  unfold persisted
  rw [hwork]
  cases hp : p.work with
  | idle | starting | publishing | looping => rw [hp] at hw; cases hw
  | thing round id rest now stage =>
    have hr := hready round id rest now stage hp
    cases result with
    | error code => exact caught_inv hr code
    | ok =>
      obtain ⟨hst, hvalid⟩ := hok rfl
      rw [hp] at hat hw
      cases stage with
      | getting | writing | confirming | deleting => cases hw
      | settling action => exact ⟨hk, hsome', hknows⟩
      | retiring => exact ⟨hk, hsome', hknows⟩
      | adopting remote =>
        obtain ⟨-, -, hcurrent, hmatched⟩ := hat
        refine attempting_inv (proceed_runs hm hr ?_)
        rintro _ ⟨⟩
        rw [hdir, hstate]
        exact ⟨hcurrent, hmatched⟩
      | intending plan =>
        obtain ⟨-, hintended, hplan⟩ := hat
        have hu := hsaved hst hsome
        refine attempting_inv (write_runs hm hr hu ?_ (by rw [hstate]; exact hintended) ?_)
        · obtain ⟨old, record, intent, hold, hfound, hintent, hproducer⟩ := hintended
          rw [hold] at hvalid
          exact hproducer ▸ validate_intent hvalid hfound hintent
        · intro remote hremote
          rw [hdir, hstate]
          exact hplan remote hremote
  | failing round id rest code =>
    cases result with
    | ok => exact ⟨hk, hsome', hknows⟩
    | error => exact ⟨hk, hknows⟩
  | finishing round => exact ⟨hk, hknows⟩

theorem saved_inv (hm : c.contract.ownership = .etag) (h : Inv c p) (result : Except String Unit) (stored : Bool) :
    Inv c (saved c result stored p) := by
  unfold saved
  split
  · exact h
  · rename_i hw
    have hw : awaitsSave p.work := by simpa using hw
    split
    · rename_i hv
      refine persisted_inv hm h hw result _ fun hr => ⟨?_, hv⟩
      rw [hr]
      rfl
    · exact persisted_inv hm h hw _ _ fun hr => nomatch hr

-- Answers

theorem At.passing (h : At c directory state log work) (he : passing e) :
    At c directory state (log ++ [e]) work := by
  cases work with
  | idle | starting => exact Knows.passing h he
  | publishing | looping | failing | finishing => exact ⟨h.1, h.2.passing he⟩
  | thing round id rest now stage =>
    cases stage with
    | adopting remote => exact ⟨h.1, h.2.1.passing he, h.2.2⟩
    | intending plan => exact h
    | writing plan | confirming plan => exact ⟨h.1, h.2.1.passing he, h.2.2.snoc⟩
    | getting | settling | deleting | retiring => exact ⟨h.1, h.2.passing he⟩

theorem At.modify (h : At c directory state log work) (other : String)
    (td : Option ThingDescription) :
    At c (directory.modify other td) state log work := by
  cases work with
  | idle | starting | publishing | looping | failing | finishing => exact h
  | thing round id rest now stage =>
    cases stage with
    | adopting remote => exact ⟨h.1, h.2.1, h.2.2.1.modify, h.2.2.2⟩
    | intending plan => exact ⟨h.1, h.2.1, fun remote hremote => ⟨(h.2.2 remote hremote).1.modify, (h.2.2 remote hremote).2⟩⟩
    | getting | writing | confirming | settling | deleting | retiring => exact h

theorem process_inv (h : Inv c p) (hw : write ∈ p.flying) : Inv c (process write value p) := by
  obtain ⟨hkept, hat⟩ := h
  obtain ⟨hk, hlog⟩ := process_kept value hkept hw
  refine ⟨hk, ?_⟩
  have hdir : At c (process write value p).directory p.state p.log p.work := by
    change At c (p.directory.process value write.request).1 p.state p.log p.work
    rcases process_cases p.directory value write.request with ⟨hd, -⟩ | ⟨td, hd, -⟩
    · rw [hd]
      exact hat
    · rw [hd]
      exact hat.modify _ _
  rcases hlog with hlog | ⟨replaced, hlog⟩
  · rw [hlog]
    exact hdir
  · rw [hlog]
    exact hdir.passing rfl

theorem read_current (ht : ∀ id td tag, directory.resources id = some (td, tag) → tag < directory.tags) (h : DirectoryRecord.read c id (directory.resources id) = .ok remote) :
    ∀ record, remote = some record → Current directory id record := by
  rintro record rfl
  cases hr : directory.resources id with
  | none =>
    rw [hr] at h
    cases h
  | some resource =>
    obtain ⟨td, tag⟩ := resource
    rw [hr] at h
    unfold DirectoryRecord.read at h
    obtain ⟨_, -, h⟩ := except_bind_ok h
    split at h
    · cases h
    · obtain ⟨expiresAt, -, h⟩ := except_bind_ok h
      cases h
      refine ⟨tag, rfl, ht id td tag hr, fun other ho => ?_⟩
      rw [hr] at ho
      exact (Prod.ext_iff.mp (Option.some.inj ho)).1.symm

structure Probes (p p' : Publisher) : Prop where
  directory : p'.directory = p.directory
  durable : p'.durable = p.durable
  state : p'.state = p.state
  work : p'.work = p.work
  sent : ∃ writes : List Sent, p'.flying = p.flying ++ writes ∧ p'.log = p.log ++ writes.map .sent ∧
    ∀ write ∈ writes, write.origin = .preflight

instance : IsTrans Publisher Probes where
  trans a b c h₁ h₂ := by
    obtain ⟨ws, hf, hl, hw⟩ := h₁.sent
    obtain ⟨ws', hf', hl', hw'⟩ := h₂.sent
    refine ⟨h₂.directory.trans h₁.directory, h₂.durable.trans h₁.durable, h₂.state.trans h₁.state, h₂.work.trans h₁.work,
      ws ++ ws', by rw [hf', hf, List.append_assoc], by rw [hl', hl, List.map_append, List.append_assoc], fun w h => ?_⟩
    exact (List.mem_append.mp h).elim (hw w) (hw' w)

theorem Probes.refl (p : Publisher) : Probes p p :=
  ⟨rfl, rfl, rfl, rfl, [], (List.append_nil _).symm, (List.append_nil _).symm, fun _ h => nomatch h⟩

theorem probes_inv (h : Inv c p) (hp : Probes p p') : Inv c p' := by
  obtain ⟨hd, hdur, hs, hw, writes, hf, hl, ho⟩ := hp
  obtain ⟨hkept, hat⟩ := h
  have hboth : Kept c p.directory p.durable (p.flying ++ writes) p.state (p.log ++ writes.map .sent) ∧
      At c p.directory p.state (p.log ++ writes.map .sent) p.work := by
    clear hf hl
    induction writes using List.reverseRecOn with
    | nil =>
      rw [List.append_nil, List.map_nil, List.append_nil]
      exact ⟨hkept, hat⟩
    | append_singleton writes write ih =>
      obtain ⟨hk, ha⟩ := ih fun w hw => ho w (List.mem_append_left _ hw)
      have hpre : write.origin = .preflight := ho write (List.mem_append_right _ (List.mem_singleton.mpr rfl))
      rw [List.map_append, ← List.append_assoc, ← List.append_assoc]
      refine ⟨hk.sent (fun hno => absurd hpre hno) fun publication hpublication => ?_, ha.passing rfl⟩
      rw [hpre] at hpublication
      cases hpublication
  refine ⟨?_, ?_⟩
  · rw [hd, hdur, hf, hs, hl]
    exact hboth.1
  · rw [hd, hs, hl, hw]
    exact hboth.2

theorem probes_probe (stage : Probe) : Keeps Probes (probe stage) :=
  fun _ => ⟨rfl, rfl, rfl, rfl, [], (List.append_nil _).symm, (List.append_nil _).symm, fun _ h => nomatch h⟩

theorem probes_send (request : Request) (stage : Probe) :
    Keeps Probes (do send .preflight request; probe stage : M Unit) :=
  fun _ => ⟨rfl, rfl, rfl, rfl, [_], rfl, rfl, fun write h => by rw [List.mem_singleton.mp h]⟩

theorem probes_cleanup (current : Option DirectoryRecord) (failed : Bool) :
    Keeps Probes (cleanup c id current failed) := by
  unfold cleanup
  split
  · exact .bind (.lift .refl _) fun condition => .bind (.lift .refl _) fun request => probes_send _ _
  · exact .throw .refl _

theorem probes_renew (current : DirectoryRecord) (changed : ThingDescription) :
    Keeps Probes (probeRenew c id current changed) := by
  unfold probeRenew
  split
  · exact .bind (.lift .refl _) fun condition => .bind (.lift .refl _) fun request => probes_send _ _
  · exact probes_cleanup _ _

theorem probes_guarded {m : M Unit} (hm : Keeps Probes m) (current : Option DirectoryRecord) :
    Keeps Probes (guarded c id current m) := by
  intro p
  have h := hm p
  unfold guarded
  generalize m p = r at h
  obtain ⟨r, p'⟩ := r
  cases r with
  | ok => exact h
  | error e => exact trans_of Probes h (probes_cleanup _ _ p')

theorem probes_got (stage : Probe) (answer : Except String (Option DirectoryRecord)) :
    Keeps Probes (probeGot c id stage answer) := by
  cases stage with
  | checking =>
    refine .bind (.lift .refl _) fun remote => ?_
    cases remote with
    | some => exact .throw .refl _
    | none => exact .bind (.lift .refl _) fun request => probes_send _ _
  | reading =>
    unfold probeGot
    dsimp only
    split
    · refine probes_guarded (.bind (.lift .refl _) fun same => ?_) _
      split
      · exact .throw .refl _
      · split
        · exact .throw .refl _
        · exact probes_probe _
    · exact probes_cleanup _ _
  | rereading before changed =>
    unfold probeGot
    dsimp only
    split
    · refine probes_guarded (.bind (.lift .refl _) fun same => ?_) _
      split
      · exact .throw .refl _
      · split
        · exact .bind (.lift .refl _) fun request => probes_send _ _
        · exact probes_renew _ _
    · exact probes_cleanup _ _
    · exact probes_cleanup _ _
  | rechecking before changed =>
    unfold probeGot
    dsimp only
    split
    · refine probes_guarded (.bind (.lift .refl _) fun renewed => ?_) _
      split
      · exact probes_cleanup _ _
      · exact .throw .refl _
    · exact probes_cleanup _ _
    · exact probes_cleanup _ _
  | gone =>
    refine .bind (.lift .refl _) fun remote => ?_
    cases remote with
    | some => exact .throw .refl _
    | none => exact .modify fun p => ⟨rfl, rfl, rfl, rfl, (Probes.refl p).sent⟩
  | listing | creating | relisting | updating | colliding | renewing | deleting => exact .pure .refl _

theorem probes_listed (stage : Probe) (answer : Except String Bool) :
    Keeps Probes (probeListed c id stage answer) := by
  cases stage with
  | relisting current =>
    refine probes_guarded (.bind (.lift .refl _) fun listed => ?_) _
    split
    · exact .throw .refl _
    · exact .bind (.lift .refl _) fun condition => .bind (.lift .refl _) fun request => probes_send _ _
  | listing | checking | creating | reading | updating | rereading | colliding | renewing | rechecking | deleting | gone =>
    exact .pure .refl _

theorem probes_wrote (stage : Probe) (outcome : Except String Unit) :
    Keeps Probes (probeWrote c id stage outcome) := by
  cases stage with
  | creating => exact .bind (.lift .refl _) fun _ => probes_probe _
  | updating current changed =>
    cases outcome with
    | ok => exact probes_probe _
    | error => exact probes_cleanup _ _
  | colliding current changed =>
    unfold probeWrote
    dsimp only
    split
    · exact probes_guarded (probes_renew _ _) _
    · exact probes_cleanup _ _
  | renewing current changed =>
    cases outcome with
    | ok => exact probes_probe _
    | error => exact probes_cleanup _ _
  | deleting failed =>
    refine .bind (.lift .refl _) fun _ => ?_
    split
    · exact .throw .refl _
    · exact probes_probe _
  | listing | checking | reading | relisting | rereading | rechecking | gone => exact .pure .refl _

theorem booting_inv {m : M Unit} (hm : Keeps Probes m) (h : Inv c p) : Inv c (booting m p) := by
  have hp := hm p
  unfold booting
  generalize m p = r at hp
  obtain ⟨r, p'⟩ := r
  have hinv := probes_inv h hp
  cases r with
  | ok => exact hinv
  | error => exact ⟨hinv.kept, hinv.at_⟩

-- Every step

theorem wrote_inv (h : Inv c p) (outcome : Except String Unit) : Inv c (wrote c outcome p) := by
  obtain ⟨hkept, hat⟩ := h
  unfold wrote
  split
  · exact booting_inv (probes_wrote _ _) ⟨hkept, hat⟩
  · rename_i round id rest now plan hw _
    rw [hw] at hat
    obtain ⟨hfree, hknows, hknown⟩ := hat
    refine attempting_inv (lift_cases (fun _ _ => ?_) fun _ => ⟨hkept, hfree, hknows⟩)
    exact ⟨hkept, hfree, hknows, hknown⟩
  · rename_i round id rest now hw _
    rw [hw] at hat
    obtain ⟨hfree, hknows⟩ := hat
    refine attempting_inv (lift_cases (fun _ _ => ?_) fun _ => ⟨hkept, hfree, hknows⟩)
    exact deleted_runs ⟨hkept, hfree, hknows⟩
  · exact ⟨hkept, hat⟩

theorem answered_inv (h : Inv c p) (result : Except String (Option Json)) : Inv c (answered c result p) := by
  unfold answered
  split
  · exact h
  · cases result with
    | error code => exact wrote_inv h _
    | ok registration =>
      dsimp only
      split
      · rename_i write hfind
        exact wrote_inv (process_inv h (List.mem_of_find?_eq_some hfind)) _
      · exact h

theorem gotAnswer_inv (hm : c.contract.ownership = .etag) (h : Inv c p) (result : Except String Unit) :
    Inv c (gotAnswer c result p) := by
  obtain ⟨hkept, hat⟩ := h
  have hread : ∀ id remote, retrieved c result p id = .ok remote →
      ∀ record, remote = some record → Current p.directory id record := by
    intro id remote hr
    cases result with
    | ok => exact read_current hkept.tags hr
    | error => cases hr
  unfold gotAnswer
  split
  · exact booting_inv (probes_got _ _) ⟨hkept, hat⟩
  · rename_i round id rest now hw _
    rw [hw] at hat
    obtain ⟨hfree, hknows⟩ := hat
    refine attempting_inv (lift_cases (fun remote hremote => ?_) fun _ => ⟨hkept, hfree, hknows⟩)
    exact got_runs hm ⟨hkept, hfree, hknows⟩ (hread id remote hremote)
  · rename_i round id rest now plan hw _
    rw [hw] at hat
    obtain ⟨hfree, hknows, hknown⟩ := hat
    refine attempting_inv (lift_cases (fun remote _ => ?_) fun _ => ⟨hkept, hfree, hknows⟩)
    exact confirm_runs ⟨hkept, hfree, hknows⟩ hknown
  · exact ⟨hkept, hat⟩

theorem listed_inv (h : Inv c p) (result : Except String Bool) : Inv c (listed c result p) := by
  unfold listed
  split
  · exact ⟨h.kept, h.at_⟩
  · exact booting_inv (.bind (.lift .refl _) fun _ => .bind (.lift .refl _) fun _ => probes_probe _) h
  · exact booting_inv (probes_listed _ _) h
  · exact h

theorem at_none (h : At c directory none log work)
    (hnew : ∀ state : Option PublicationState, state = new → Knows log state) :
    At c directory new log work := by
  cases work with
  | idle | starting => exact hnew _ rfl
  | publishing | looping | failing | finishing => cases h.1
  | thing => cases (at_free h).some

theorem loaded_inv (h : Inv c p) (result : Except String Unit) : Inv c (loaded c result p) := by
  obtain ⟨hkept, hat⟩ := h
  unfold loaded
  split
  · rename_i hs
    rw [hs] at hkept hat
    split
    · have hdurable : ∀ last, p.durable = some last → p.durable.getD (emptyState c) = last := by
        intro last hl
        rw [hl]
        rfl
      have hknows : Knows p.log (some (p.durable.getD (emptyState c))) := by
        rintro - _ id record ⟨⟩ hr
        cases hd : p.durable with
        | none =>
          rw [hd] at hr
          cases hr
        | some last =>
          rw [hdurable last hd] at hr
          have hsaved := hkept.stored last hd
          exact ⟨⟨last, record, hsaved, hr, .inl rfl⟩, fun intent hi => ⟨last, record, hsaved, hr, .inr ⟨intent, hi, rfl⟩⟩⟩
      refine ⟨{ hkept with sticky := fun id hc => ?_, held := fun id hid => ?_ }, at_none hat fun _ hn => hn ▸ hknows⟩
      · obtain ⟨⟨last, hl, hin⟩, -⟩ := hkept.sticky id hc
        refine ⟨⟨last, hl, hin⟩, ?_⟩
        rintro _ ⟨⟩
        rw [hdurable last hl]
        exact hin
      · obtain ⟨_, hn, -⟩ := hkept.held id hid
        cases hn
    · refine ⟨?_, ?_⟩ <;> rw [hs]
      · exact hkept
      · exact hat
  · exact ⟨hkept, hat⟩
  · exact ⟨hkept, hat⟩

theorem crash_inv (h : Inv c p) : Inv c (step c p .crash) := by
  obtain ⟨hkept, -⟩ := h
  refine ⟨?_, fun _ now _ _ hn => nomatch hn⟩
  exact {
    tags := hkept.tags
    flights := fun write hw => (hkept.flights write hw).snoc
    replaced := hkept.replaced.snoc fun _ _ he => nomatch he
    selected := hkept.selected.snoc fun _ _ he => nomatch he
    stored := fun last hl => List.mem_append_left _ (hkept.stored last hl)
    sticky := fun id hc => ⟨(hkept.sticky id (conflicted_snoc (fun _ he => Event.noConfusion he) hc)).1, fun _ hn => nomatch hn⟩
    held := fun id hid => by
      rw [step, held_snoc] at hid
      cases hid }

theorem step_inv (hm : c.contract.ownership = .etag) (h : Inv c p) (i : Input) : Inv c (step c p i) := by
  cases i with
  | reconcile publication =>
    unfold step
    cases hw : p.work with
    | idle =>
      have hat := h.at_
      rw [hw] at hat
      exact ⟨h.kept, hat⟩
    | _ => exact h
  | turn =>
    change Inv c (turn c p)
    unfold turn
    split
    · rename_i publication hw _
      have hat := h.at_
      rw [hw] at hat
      unfold accept
      split
      · exact ⟨h.kept, hat⟩
      · split
        · exact ⟨h.kept, hat⟩
        · rename_i hs _
          exact ⟨h.kept, by rw [hs]; rfl, hat⟩
    · rename_i publication hw _
      have hat := h.at_
      rw [hw] at hat
      exact ⟨h.kept, hat⟩
    · rename_i round places _ hw
      exact loop_inv h hw
    · exact h
  | loaded result => exact loaded_inv h result
  | listed result => exact listed_inv h result
  | got result => exact gotAnswer_inv hm h result
  | answered result => exact answered_inv h result
  | published result =>
    unfold step
    cases hw : p.work with
    | publishing publication =>
      have hat := h.at_
      rw [hw] at hat
      cases result with
      | ok => exact ⟨h.kept, hat⟩
      | error => exact ⟨h.kept, hat.2⟩
    | _ => exact h
  | saved result stored => exact saved_inv hm h result stored
  | processed ticket registration =>
    unfold step
    dsimp only
    split
    · rename_i write hfind
      exact process_inv h (List.mem_of_find?_eq_some hfind)
    · exact h
  | other id td => exact ⟨h.kept.modify id td, h.at_.modify id td⟩
  | crash => exact crash_inv h

theorem reachable_inv (hm : c.contract.ownership = .etag) (h : (system c).Reachable p) : Inv c p :=
  h.invariant (fun _ hp => inv_initial hp) fun s i _ hp hi => by
    cases hi
    exact step_inv hm hp i

/-- In every run, what a reconciliation replaces or deletes is content that a
saved revision matches, and it writes neither what is quarantined nor what it
holds or has saved as a conflict. -/
theorem replaces_owned (hm : c.contract.ownership = .etag) (h : (system c).Reachable p) :
    Replaced p.log ∧ Selected c p.log :=
  ⟨(reachable_inv hm h).kept.replaced, (reachable_inv hm h).kept.selected⟩

-- Runs

def small (verification : Verification) : Context where
  owner := "bridge"
  contract := ⟨verification, .etag, .bridgeDelete⟩
  freshMs := 10
  graceMs := 10
  renewBeforeMs := 1
  sha256 | .object fields => if (get "title" fields).isSome then "titled" else "plain"
         | _ => ""
  stringOf _ := ""
  validThing _ := .ok ()
  resourceUrl _ := .ok ()
  parseDate _ := none
  instant _ := none
  clock _ := some 5
  assertJson _ := true

def camera (fields : ThingDescription) : PublicationThing :=
  ⟨"camera", ("@context", .array [.string "https://www.w3.org/2022/wot/td/v1.1"]) :: ("id", .string "urn:camera") :: fields,
    some 5, false⟩

def empty : Publisher := { directory := ⟨fun _ => none, 0⟩, durable := none }

theorem empty_initial : Initial empty := ⟨fun _ _ _ h => (nomatch h), rfl⟩

def updatedRun : List Input :=
  [.reconcile ⟨0, [camera []]⟩, .loaded (.ok ()), .listed (.ok true), .turn, .published (.ok ()), .turn, .got (.ok ()),
    .saved (.ok ()) true, .answered (.ok none), .got (.ok ()), .saved (.ok ()) true, .turn, .saved (.ok ()) true,
    .reconcile ⟨1, [camera [("title", .string "Door")]]⟩, .turn, .published (.ok ()), .turn, .got (.ok ()),
    .saved (.ok ()) true, .answered (.ok none)]

def probedRun : List Input :=
  [.reconcile ⟨0, []⟩, .loaded (.ok ()), .listed (.ok true), .got (.ok ()), .answered (.ok none), .got (.ok ()),
    .listed (.ok true), .answered (.ok none)]

theorem foldl_reachable (c : Context) (labels : List Input) : (system c).Reachable (labels.foldl (step c) empty) :=
  ⟨empty, labels, empty_initial, System.run_ofFun.mpr rfl⟩

def replacements (log : List Event) : List ThingDescription :=
  log.filterMap fun | .modified _ replaced => replaced | _ => none

theorem replaces_owned_updated :
    ∃ p : Publisher, (replacements p.log).length = 1 ∧ Replaced p.log ∧ Selected (small .attested) p.log :=
  ⟨_, by decide +kernel, replaces_owned rfl (foldl_reachable _ updatedRun)⟩

def lastReplaced (log : List Event) : Option (Sent × ThingDescription) :=
  match log.getLast? with
  | some (.modified write (some td)) => some (write, td)
  | _ => none

theorem eq_of_lastReplaced {log : List Event} {write : Sent}
    (h : lastReplaced log = some (write, td)) : log = log.dropLast ++ [.modified write (some td)] := by
  unfold lastReplaced at h
  split at h
  · rename_i hlast
    cases h
    exact (List.dropLast_append_getLast? _ hlast).symm
  · cases h

def savesNothing (log : List Event) : Bool := log.all fun | .saved _ => false | _ => true

/-- The publisher replaces content that it has not saved: its probe. -/
theorem replaces_owned_probed :
    ¬∀ (c : Context) (p : Publisher), c.contract.ownership = .etag → (system c).Reachable p →
      ∀ before write td after, p.log = before ++ .modified write (some td) :: after →
      Owned before write.request.id td := by
  intro h
  let log := (probedRun.foldl (step (small (.ownedRoundtrip "urn:probe"))) empty).log
  have hlast : (lastReplaced log).isSome = true := by decide +kernel
  obtain ⟨⟨write, td⟩, hlast⟩ := Option.isSome_iff_exists.mp hlast
  obtain ⟨producer, ⟨state, record, hs, -⟩, -⟩ :=
    h _ _ rfl (foldl_reachable _ probedRun) _ write td [] (eq_of_lastReplaced hlast)
  have hnone : savesNothing log = true := by decide +kernel
  have := List.all_eq_true.mp hnone _ (List.dropLast_subset _ hs)
  cases this

end WotAv.Publication.Publisher
