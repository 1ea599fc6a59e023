import Reassembly.Proofs.Upkeep
import Reassembly.Workspace.Basic

/-!
# Programs that work on a store

A program makes objects, changes them, folds updates and adds to lists of messages, in any order. It
starts with nothing but the labels that have names, gives only plain data and what it has, and keeps
lists of messages of its own.

* `Deed`, `Workshop.perform`, `Workshop.run`: what a program can do.
* `Deed.Allowed`: its arguments are there, and of the kinds that the functions are for. What they
  say may be wrong in any way.
* `Workshop.InOrder`: the store is tidy, and the lists hold messages.
* `InOrder.perform`, `InOrder.run`: one deed keeps this, and so does any program.
-/
namespace Reassembly

open Store

/-- A store, and the lists of messages that the program has made for itself. -/
structure Workshop where
  store : Store
  lists : List Value

/-- Where messages go: to the transcript of a session, to the messages of a response, to a list of
the program's own, or nowhere. -/
inductive Place where
  | transcript (session : Value)
  | messages (response : Value)
  | own (n : Nat)
  | nowhere

inductive Deed where
  /-- puts plain data into the store -/
  | build (v : Value)
  /-- calls a constructor -/
  | make (k : Kind) (given : Entries Value)
  | validate (k : Kind) (v : Value)
  | assign (target : Value) (name : String) (v : Value)
  | clone (message : Value)
  | feed (accumulator update : Value)
  | finalize (accumulator : Value)
  | toUpdates (response : Value)
  | toResponse (mode : Mode) (coalesce : Value) (source : Source Value)
  /-- makes a list of messages -/
  | list (messages : List Value)
  | add (place : Place) (addition : Addition)

namespace Workshop

def start : Workshop := ⟨.empty, []⟩

def locate (w : Workshop) : Place → Value
  | .transcript session => w.store.member session "transcript"
  | .messages response => w.store.member response "messages"
  | .own n => (w.lists[n]?).getD .null
  | .nowhere => .null

/-- The workshop after a call. -/
def after (w : Workshop) (e : Effect) : Workshop × Except Failure Value :=
  ({ w with store := e.1 }, e.2)

/-- Puts what has been made into the store, if it could be made. -/
def enter (w : Workshop) : Except Failure Value → Workshop × Except Failure Value
  | .error f => (w, .error f)
  | .ok v => w.after ((w.store.intern v).1, .ok (w.store.intern v).2)

def perform (w : Workshop) : Deed → Workshop × Except Failure Value
  | .build v => w.enter (.ok v)
  | .make k given => w.enter (makeObject w.store k given)
  | .validate k v => w.enter (Reassembly.validate w.store k v).orFail
  | .assign target name v =>
    match w.store.assign target (.text name) v with
    | .error f => (w, .error f)
    | .ok s => w.after (s, .ok .null)
  | .clone message => w.after (w.store.call message [] .clone)
  | .feed accumulator update => w.after (w.store.call accumulator [update] .feed)
  | .finalize accumulator => w.after (w.store.call accumulator [] .finalize)
  | .toUpdates response => w.after (w.store.call response [] .toUpdates)
  | .toResponse mode coalesce source => w.after (w.store.toResponse mode coalesce source)
  | .list messages =>
    let (s, list) := w.store.intern (.list messages)
    (⟨s, w.lists ++ [list]⟩, .ok list)
  | .add place addition => w.after (w.store.add (w.locate place) addition)

def run (w : Workshop) (deeds : List Deed) : Workshop := deeds.foldl (fun w d => (w.perform d).1) w

end Workshop

/-! ## What a program may do -/

/-- Plain data without blank bytes, with objects in it that are there. -/
def Store.Given (s : Store) (v : Value) : Prop :=
  v.isPlain = true ∧ v.hasBlankBytes = false ∧ ∀ x ∈ v.refs, x < s.size

instance (s : Store) (v : Value) : Decidable (s.Given v) :=
  inferInstanceAs
    (Decidable (v.isPlain = true ∧ v.hasBlankBytes = false ∧ ∀ x ∈ v.refs, x < s.size))

/-- An object of the kind that is there. -/
def Store.GivenAs (s : Store) (k : Kind) (v : Value) : Prop := s.Given v ∧ s.isOf k v = true

instance (s : Store) (k : Kind) (v : Value) : Decidable (s.GivenAs k v) :=
  inferInstanceAs (Decidable (s.Given v ∧ s.isOf k v = true))

def Place.Allowed (s : Store) : Place → Prop
  | .transcript session => s.GivenAs .session session
  | .messages response => s.GivenAs .response response
  | .own _ | .nowhere => True

def Addition.Allowed (s : Store) : Addition → Prop
  | .response r => r = .null ∨ s.GivenAs .response r
  | .updates _ _ source => ∀ x ∈ source, ∀ u ∈ x.updates, s.GivenAs .update u
  | .update u _ => u = .null ∨ s.GivenAs .update u ∨ s.GivenAs .message u

/-- Arguments are there, and functions that are for objects of a kind get one. What constructors,
validation and assignments are given may be wrong. -/
def Deed.Allowed (s : Store) : Deed → Prop
  | .build v => s.Given v
  | .make _ given => ∀ e ∈ given, s.Given e.2
  | .validate k v => k ≠ .accumulator ∧ s.Given v
  | .assign target _ v =>
    s.Given target ∧ (s.kind? target).any Kind.checksAssignment = true ∧ s.Given v
  | .clone message => s.GivenAs .message message
  | .feed a u => s.GivenAs .accumulator a ∧ s.GivenAs .update u
  | .finalize a => s.GivenAs .accumulator a
  | .toUpdates response => s.GivenAs .response response
  | .toResponse _ coalesce source =>
    s.Given coalesce ∧ ∀ u ∈ source.updates, s.GivenAs .update u
  | .list messages => ∀ m ∈ messages, s.GivenAs .message m
  | .add place addition => place.Allowed s ∧ addition.Allowed s

/-- So it is with each deed of a program, when its turn comes. -/
def Workshop.AllowsAll (w : Workshop) : List Deed → Prop
  | [] => True
  | d :: ds => d.Allowed w.store ∧ (w.perform d).1.AllowsAll ds

instance (s : Store) : (p : Place) → Decidable (p.Allowed s)
  | .transcript session => inferInstanceAs (Decidable (s.GivenAs .session session))
  | .messages response => inferInstanceAs (Decidable (s.GivenAs .response response))
  | .own _ | .nowhere => .isTrue trivial

instance (s : Store) : (a : Addition) → Decidable (a.Allowed s)
  | .response r => inferInstanceAs (Decidable (r = .null ∨ s.GivenAs .response r))
  | .updates _ _ source =>
    inferInstanceAs (Decidable (∀ x ∈ source, ∀ u ∈ x.updates, s.GivenAs .update u))
  | .update u _ =>
    inferInstanceAs (Decidable (u = .null ∨ s.GivenAs .update u ∨ s.GivenAs .message u))

instance (s : Store) : (d : Deed) → Decidable (d.Allowed s)
  | .build v => inferInstanceAs (Decidable (s.Given v))
  | .make _ given => inferInstanceAs (Decidable (∀ e ∈ given, s.Given e.2))
  | .validate k v => inferInstanceAs (Decidable (k ≠ .accumulator ∧ s.Given v))
  | .assign target _ v =>
    inferInstanceAs (Decidable (s.Given target ∧
      (s.kind? target).any Kind.checksAssignment = true ∧ s.Given v))
  | .clone message => inferInstanceAs (Decidable (s.GivenAs .message message))
  | .feed a u => inferInstanceAs (Decidable (s.GivenAs .accumulator a ∧ s.GivenAs .update u))
  | .finalize a => inferInstanceAs (Decidable (s.GivenAs .accumulator a))
  | .toUpdates response => inferInstanceAs (Decidable (s.GivenAs .response response))
  | .toResponse _ coalesce source =>
    inferInstanceAs (Decidable (s.Given coalesce ∧ ∀ u ∈ source.updates, s.GivenAs .update u))
  | .list messages => inferInstanceAs (Decidable (∀ m ∈ messages, s.GivenAs .message m))
  | .add place addition => inferInstanceAs (Decidable (place.Allowed s ∧ addition.Allowed s))

instance decidableWorkshopAllowsAll (w : Workshop) : (ds : List Deed) → Decidable (w.AllowsAll ds)
  | [] => .isTrue trivial
  | d :: ds =>
    have := decidableWorkshopAllowsAll (w.perform d).1 ds
    inferInstanceAs (Decidable (d.Allowed w.store ∧ (w.perform d).1.AllowsAll ds))

/-! ## What is true of a workshop -/

/-- The store is tidy, it still has what was there at the start, and the lists of the program are
known to hold messages. -/
def Workshop.InOrder (w : Workshop) : Prop :=
  ∃ kinds, Store.empty.Onward (fun _ => none) w.store kinds ∧ w.store.Tidy kinds ∧
    ∀ l ∈ w.lists, w.store.Made kinds l ∧ w.store.IsListing kinds .message l

section
variable {s : Store} {lists : ListKinds} {v : Value} {k : Kind} {w : Workshop}

theorem Store.Given.made (h : s.Given v) : s.Made lists v := made_of_plain v h.1 h.2.1 h.2.2

theorem Store.GivenAs.made (h : s.GivenAs k v) : s.Made lists v ∧ s.isOf k v = true :=
  ⟨h.1.made, h.2⟩

theorem kind?_of_isOf_accumulator (h : s.isOf .accumulator v = true) :
    s.kind? v = some .accumulator := by
  obtain ⟨l, hl, hlk⟩ := (Option.any_eq_true _ _).1 h
  rw [hl]
  cases l <;> first | rfl | cases hlk

theorem tidy_empty : Store.empty.Tidy fun _ => none where
  room := Nat.le_refl _
  shareable := by decide
  made := by
    intro x hx
    have labels : ∀ l ∈ wellKnownLabels,
        (l.kind = .role ∨ l.kind = .finish) ∧ Text.isBlankText l.text = false := by decide
    have hcell : Store.empty.cell x ∈ Store.empty.cells := by
      unfold cell
      rw [List.getElem?_eq_getElem hx]
      exact List.getElem_mem hx
    obtain ⟨l, hl, he⟩ := List.mem_map.1 hcell
    obtain ⟨hkind, hblank⟩ := labels l hl
    have hlabel : (Value.text l.text).isLabel = true := isLabel_iff.2 ⟨l.text, rfl, hblank⟩
    rw [← he]
    refine made_object.2 ⟨?_, by simp⟩
    rcases hkind with hk | hk <;> rw [hk] <;> exact (suits_iff (by decide)).2 (.cons hlabel .nil)
  known := nofun

theorem Workshop.inOrder_start : Workshop.start.InOrder :=
  ⟨fun _ => none, .refl _ _, tidy_empty, nofun⟩

theorem Workshop.InOrder.after (h : w.InOrder)
    (k : ∀ kinds, w.store.Tidy kinds → ∃ more, w.store.Onward kinds s more ∧ s.Tidy more) :
    (⟨s, w.lists⟩ : Workshop).InOrder := by
  obtain ⟨kinds, hstart, htidy, hlists⟩ := h
  obtain ⟨more, onward, hdone⟩ := k kinds htidy
  exact ⟨more, hstart.trans onward, hdone, fun l hl =>
    ⟨Made.onward onward l (hlists l hl).1, IsListing.onward onward (hlists l hl).2⟩⟩

theorem Workshop.InOrder.enter (h : w.InOrder) {e : Except Failure Value}
    (k : ∀ kinds, w.store.Tidy kinds → ∀ v, e = .ok v → w.store.Made kinds v) :
    (w.enter e).1.InOrder := by
  cases e with
  | error f => exact h
  | ok v =>
    refine h.after fun kinds htidy => ?_
    obtain ⟨more, onward, hdone, -⟩ := placed_intern htidy v (k kinds htidy v rfl) .anything trivial
    exact ⟨more, onward, hdone⟩

theorem Store.Leaves.tidy {e : Effect} (h : s.Leaves lists e) :
    ∃ more, s.Onward lists e.1 more ∧ e.1.Tidy more := by
  obtain ⟨more, onward, htidy, -⟩ := h
  exact ⟨more, onward, htidy⟩

theorem made_of_makeObject (ht : s.Tidy lists) {given : Entries Value}
    (hg : ∀ e ∈ given, s.Made lists e.2) (h : makeObject s k given = .ok v) :
    s.Made lists v := by
  by_cases hk : k = .accumulator
  · subst hk
    cases h
    refine made_accumulator ?_ made_null made_empty
    cases hc : Entries.get? (.text "coalesce") given with
    | none => exact made_bool true
    | some c => exact hg _ (Entries.mem_of_get? hc)
  · have hmake : makeObject s k given = (construct s k given).orFail := by
      cases k <;> first | rfl | exact absurd rfl hk
    rw [hmake] at h
    cases hc : construct s k given with
    | error ps =>
      rw [hc] at h
      cases h
    | ok u =>
      rw [hc] at h
      cases h
      exact (made_of_construct ht hk hg hc).1

/-- Where messages go there is a list of messages, or nothing. -/
theorem Workshop.isListing_locate {kinds : ListKinds} (ht : w.store.Tidy kinds)
    (hl : ∀ l ∈ w.lists, w.store.Made kinds l ∧ w.store.IsListing kinds .message l)
    {place : Place} (hp : place.Allowed w.store) :
    w.locate place = .null ∨ w.store.IsListing kinds .message (w.locate place) := by
  cases place with
  | transcript session =>
    obtain ⟨hmade, hk⟩ : w.store.Made kinds session ∧ _ := hp.made
    obtain ⟨l, fields, hhead, hlk⟩ := isOf_iff.1 hk
    have hkind : l = .session := by cases l <;> first | rfl | cases hlk
    subst hkind
    have hsuits := (suits_iff (by decide)).1 (made_object.1 (hhead ▸ ht.head hmade)).1
    simp only [Kind.fields, List.forall₂_cons_left_iff, List.forall₂_nil_left_iff] at hsuits
    obtain ⟨id, -, -, ⟨transcript, -, hlist, rfl, rfl⟩, rfl⟩ := hsuits
    have hmember : w.store.member session "transcript" = transcript :=
      member_of_place w.store (i := 1) hhead rfl
    refine Or.inr ?_
    rw [locate, hmember]
    exact hlist
  | messages response =>
    obtain ⟨hmade, hk⟩ : w.store.Made kinds response ∧ _ := hp.made
    obtain ⟨l, fields, hhead, hlk⟩ := isOf_iff.1 hk
    obtain rfl := isA_response hlk
    have hsuits := (suits_iff (by decide)).1 (made_object.1 (hhead ▸ ht.head hmade)).1
    obtain ⟨messages, rest, hlist, -, rfl⟩ := List.forall₂_cons_left_iff.1 hsuits
    have hmember : w.store.member response "messages" = messages :=
      member_of_place w.store (i := 0) hhead rfl
    refine Or.inr ?_
    rw [locate, hmember]
    exact hlist
  | own n =>
    show (w.lists[n]?).getD .null = .null ∨ _
    cases hn : w.lists[n]? with
    | none => exact Or.inl rfl
    | some l =>
      have hlist := (hl l (List.mem_of_getElem? hn)).2
      refine Or.inr ?_
      simp only [locate, hn]
      exact hlist
  | nowhere => exact Or.inl rfl

theorem Addition.Allowed.adds {addition : Addition} (h : addition.Allowed s) :
    s.Adds lists addition := by
  cases addition with
  | response r => exact h.imp id GivenAs.made
  | updates mode sized source => exact fun x hx u hu => (h x hx u hu).made
  | update u keep =>
    exact h.imp id fun h => h.elim (fun h => ⟨h.made.1, Or.inl h.2⟩) fun h => ⟨h.made.1, Or.inr h.2⟩

/-- **One deed** keeps a workshop in order. -/
theorem Workshop.InOrder.perform (h : w.InOrder) {d : Deed} (ha : d.Allowed w.store) :
    (w.perform d).1.InOrder := by
  cases d with
  | build v =>
    exact h.enter fun kinds _ x hx => by
      cases hx
      exact ha.made
  | make k given =>
    exact h.enter fun kinds ht x hx => made_of_makeObject ht (fun e he => (ha e he).made) hx
  | validate k v =>
    refine h.enter fun kinds ht x hx => ?_
    cases hc : Reassembly.validate w.store k v with
    | error ps =>
      rw [hc] at hx
      cases hx
    | ok u =>
      rw [hc] at hx
      cases hx
      exact (made_of_validate ht ha.1 ha.2.made hc).1
  | assign target name v =>
    obtain ⟨htarget, hk, hv⟩ := ha
    simp only [Workshop.perform]
    split
    · exact h
    · next t ht =>
      exact h.after fun kinds htidy => tidy_assign htidy htarget.made hk hv.made ht
  | clone message =>
    refine h.after fun kinds htidy => ?_
    obtain ⟨hmade, hk⟩ : w.store.Made kinds message ∧ _ := ha.made
    obtain ⟨l, fields, hhead, -⟩ := isOf_iff.1 hk
    have hcopy := htidy.push (htidy.head hmade) (by rw [hhead]; rfl) none
      fun l hl => by cases hl
    exact ⟨_, hcopy⟩
  | feed a u =>
    refine h.after fun kinds htidy => ?_
    obtain ⟨hacc, hu⟩ := ha
    obtain ⟨hmade, hupdate⟩ : w.store.Made kinds u ∧ _ := hu.made
    exact ⟨kinds, tidy_feed htidy hacc.made.1 (kind?_of_isOf_accumulator hacc.2) hmade hupdate⟩
  | finalize a =>
    refine h.after fun kinds htidy => ?_
    obtain ⟨x, -, more, onward, hdone, -⟩ :=
      placed_finalize htidy ha.made.1 (kind?_of_isOf_accumulator ha.2)
    exact ⟨more, onward, hdone⟩
  | toUpdates response =>
    refine h.after fun kinds htidy => ?_
    simp only [call]
    cases hu : w.store.updatesOf response with
    | error ps => exact ⟨kinds, .refl _ _, htidy⟩
    | ok us =>
      have hmade := made_of_updatesOf htidy ha.made.1 ha.2 hu
      obtain ⟨more, onward, hdone, -⟩ :=
        placed_intern htidy (.list us) (made_list.2 hmade) .anything trivial
      exact ⟨more, onward, hdone⟩
  | toResponse mode coalesce source =>
    refine h.after fun kinds htidy => ?_
    obtain ⟨more, onward, hdone, -⟩ :=
      tidy_toResponse htidy mode ha.1.made fun u hu => (ha.2 u hu).made
    exact ⟨more, onward, hdone⟩
  | list messages =>
    obtain ⟨kinds, hstart, htidy, hlists⟩ := h
    have hmade : w.store.Made kinds (.list messages) := made_list.2 fun m hm => (ha m hm).made.1
    obtain ⟨more, onward, hdone, hlist, hfits⟩ := placed_intern htidy (.list messages) hmade
      (.many .message) fun m hm => (ha m hm).2
    refine ⟨more, hstart.trans onward, hdone, List.forall_mem_append.2 ⟨fun l hl => ?_, ?_⟩⟩
    · exact ⟨Made.onward onward l (hlists l hl).1, IsListing.onward onward (hlists l hl).2⟩
    · exact List.forall_mem_singleton.2 ⟨hlist, hfits⟩
  | add place addition =>
    obtain ⟨kinds, hstart, htidy, hlists⟩ := h
    obtain ⟨more, onward, hdone⟩ :=
      (leaves_add htidy (isListing_locate htidy hlists ha.1) ha.2.adds).tidy
    exact ⟨more, hstart.trans onward, hdone, fun l hl =>
      ⟨Made.onward onward l (hlists l hl).1, IsListing.onward onward (hlists l hl).2⟩⟩

/-- **Any program** does. -/
theorem Workshop.InOrder.run (h : w.InOrder) {ds : List Deed} (ha : w.AllowsAll ds) :
    (w.run ds).InOrder := by
  induction ds generalizing w with
  | nil => exact h
  | cons d ds ih => exact ih (h.perform ha.1) ha.2

end

end Reassembly
