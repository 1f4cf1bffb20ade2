import OpampFleet.Server.Configs

/-!
# The hash of a composed configuration

The hash that gates a push is taken over the fields of the entries in name order, each behind its length, and a role
only where there is one. The fields are told apart again, but not which entry they belong to: the role of one entry may
be read as the name of the next, and the entries after it one field further on. Two different configurations have one
hash in no other way (`entries_of_hash_iff`).
-/

namespace OpampFleet.Server

open Core Lib List

private lemma framed_append_inj {a b : String} {xs ys : Bytes} (ha : (utf8 a).length < 2 ^ 64)
    (hb : (utf8 b).length < 2 ^ 64) (h : Core.framed a ++ xs = Core.framed b ++ ys) : a = b ∧ xs = ys := by
  simp only [Core.framed, append_assoc] at h
  obtain ⟨htext, hrest⟩ := sized_append_inj ha hb h
  exact ⟨utf8_injective htext, hrest⟩

private lemma flatMap_framed_inj {xs ys : List String} (hxs : ∀ text ∈ xs, (utf8 text).length < 2 ^ 64)
    (hys : ∀ text ∈ ys, (utf8 text).length < 2 ^ 64)
    (h : xs.flatMap Core.framed = ys.flatMap Core.framed) : xs = ys := by
  have hne : ∀ text, Core.framed text ≠ [] := fun text => by simp [Core.framed, lengthBytes]
  induction xs generalizing ys with
  | nil =>
    cases ys with
    | nil => rfl
    | cons y ys => exact absurd (append_eq_nil_iff.mp h.symm).1 (hne y)
  | cons x xs ih =>
    cases ys with
    | nil => exact absurd (append_eq_nil_iff.mp h).1 (hne x)
    | cons y ys =>
      rw [forall_mem_cons] at hxs hys
      obtain ⟨rfl, hrest⟩ := framed_append_inj hxs.1 hys.1 h
      rw [ih hxs.2 hys.2 hrest]

namespace ConfigEntry

structure Sized (entry : ConfigEntry) : Prop where
  name : (utf8 entry.name).length < 2 ^ 64
  body : (utf8 entry.body).length < 2 ^ 64
  role : (utf8 entry.role).length < 2 ^ 64

def fields (entry : ConfigEntry) : List String :=
  entry.name :: entry.body :: if entry.role = "" then [] else [entry.role]

private lemma framed_eq (entry : ConfigEntry) : entry.framed = entry.fields.flatMap Core.framed := by
  unfold framed fields
  split <;> simp

private lemma Sized.of_mem_fields {entry : ConfigEntry} (h : entry.Sized) {text : String}
    (htext : text ∈ entry.fields) : (utf8 text).length < 2 ^ 64 := by
  unfold fields at htext
  rcases mem_cons.mp htext with rfl | htext
  · exact h.name
  rcases mem_cons.mp htext with rfl | htext
  · exact h.body
  split at htext
  · cases htext
  · rw [mem_singleton.mp htext]
    exact h.role

end ConfigEntry

namespace DesiredConfig

open ConfigEntry

/-- After entries that both have, one of `ys` has a role where that of `xs` has none, and the texts of `xs` go on with
this role as a name. -/
def RoleReadAsName (xs ys : List ConfigEntry) : Prop :=
  ∃ same name body role xs' ys', role ≠ "" ∧ xs = same ++ ⟨name, body, ""⟩ :: xs' ∧
    ys = same ++ ⟨name, body, role⟩ :: ys' ∧
    xs'.flatMap fields = role :: ys'.flatMap fields

section

variable {xs ys : List ConfigEntry}

private lemma RoleReadAsName.cons (h : RoleReadAsName xs ys) (entry : ConfigEntry) :
    RoleReadAsName (entry :: xs) (entry :: ys) := by
  obtain ⟨same, name, body, role, xs', ys', hrole, rfl, rfl, hfields⟩ := h
  exact ⟨entry :: same, name, body, role, xs', ys', hrole, rfl, rfl, hfields⟩

private lemma RoleReadAsName.fields_eq (h : RoleReadAsName xs ys) :
    xs.flatMap ConfigEntry.fields = ys.flatMap ConfigEntry.fields ∧ xs ≠ ys := by
  obtain ⟨same, name, body, role, xs', ys', hrole, rfl, rfl, hfields⟩ := h
  refine ⟨by simp [ConfigEntry.fields, hrole, hfields], fun heq => ?_⟩
  have hentry := (cons.inj (append_cancel_left heq)).1
  exact hrole (congrArg ConfigEntry.role hentry).symm

/-- Two lists of entries have the same texts only if they are the same or a role is read as a name. -/
private lemma eq_or_roleReadAsName (h : xs.flatMap fields = ys.flatMap fields) :
    xs = ys ∨ RoleReadAsName xs ys ∨ RoleReadAsName ys xs := by
  induction xs generalizing ys with
  | nil =>
    cases ys with
    | nil => exact .inl rfl
    | cons f ys => simp [fields] at h
  | cons e xs ih =>
    cases ys with
    | nil => simp [fields] at h
    | cons f ys =>
      obtain ⟨name, body, role⟩ := e
      obtain ⟨name', body', role'⟩ := f
      simp only [flatMap_cons, fields, cons_append, cons.injEq] at h
      obtain ⟨rfl, rfl, h⟩ := h
      by_cases heq : role = role'
      · subst heq
        exact (ih (append_cancel_left h)).imp (congrArg _) (Or.imp (·.cons _) (·.cons _))
      by_cases hrole : role = ""
      · have hrole' : role' ≠ "" := fun hempty => heq (hrole.trans hempty.symm)
        rw [if_pos hrole, if_neg hrole'] at h
        exact .inr (.inl ⟨[], name, body, role', xs, ys, hrole', by rw [hrole]; rfl, rfl, h⟩)
      by_cases hrole' : role' = ""
      · rw [if_neg hrole, if_pos hrole'] at h
        exact .inr (.inr ⟨[], name, body, role, ys, xs, hrole, by rw [hrole']; rfl, rfl, h.symm⟩)
      · rw [if_neg hrole, if_neg hrole'] at h
        exact absurd (cons.inj h).1 heq

end

/-- Two configurations have the same hash only if they have the same entries in name order, unless the role of an entry
of the one is read as a name of the other. -/
theorem entries_of_hash_iff {sha256 : Bytes → Bytes} (hsha : Function.Injective sha256) {xs ys : List ConfigEntry}
    (hxs : ∀ e ∈ xs, e.Sized) (hys : ∀ e ∈ ys, e.Sized) :
    ((new sha256 xs).hash = (new sha256 ys).hash → (new sha256 xs).entries = (new sha256 ys).entries) ↔
      ¬RoleReadAsName (new sha256 xs).entries (new sha256 ys).entries ∧
        ¬RoleReadAsName (new sha256 ys).entries (new sha256 xs).entries := by
  have hsized : ∀ {xs : List ConfigEntry}, (∀ e ∈ xs, e.Sized) →
      ∀ text ∈ (new sha256 xs).entries.flatMap ConfigEntry.fields, (utf8 text).length < 2 ^ 64 := by
    intro xs hxs text htext
    obtain ⟨entry, hentry, hmem⟩ := mem_flatMap.mp htext
    exact (hxs entry ((mem_insertionSort _).mp hentry)).of_mem_fields hmem
  have hhash : (new sha256 xs).hash = (new sha256 ys).hash ↔ (new sha256 xs).entries.flatMap ConfigEntry.fields =
      (new sha256 ys).entries.flatMap ConfigEntry.fields := by
    have hframed : ∀ entries : List ConfigEntry, entries.flatMap ConfigEntry.framed =
        (entries.flatMap ConfigEntry.fields).flatMap Core.framed := fun entries => by
      rw [flatMap_assoc, funext ConfigEntry.framed_eq]
    refine ⟨fun h => ?_, fun h => congrArg sha256 ?_⟩
    · have hbytes := hsha h
      rw [hframed, hframed] at hbytes
      exact flatMap_framed_inj (hsized hxs) (hsized hys) hbytes
    · rw [hframed, hframed]
      exact congrArg _ h
  rw [hhash]
  constructor
  · intro h
    refine ⟨fun hread => ?_, fun hread => ?_⟩
    · exact hread.fields_eq.2 (h hread.fields_eq.1)
    · exact hread.fields_eq.2 (h hread.fields_eq.1.symm).symm
  · rintro ⟨hread, hread'⟩ h
    exact (eq_or_roleReadAsName h).resolve_right (not_or.mpr ⟨hread, hread'⟩)

/-- A role alone tells two configurations apart. -/
theorem entries_of_hash_iff_role_added :
    ¬RoleReadAsName (new id [⟨"a", "x", ""⟩]).entries (new id [⟨"a", "x", "r"⟩]).entries := by
  have hbare : (⟨"a", "x", ""⟩ : ConfigEntry).Sized := ⟨by decide, by decide, by decide⟩
  have hrole : (⟨"a", "x", "r"⟩ : ConfigEntry).Sized := ⟨by decide, by decide, by decide⟩
  exact ((entries_of_hash_iff Function.injective_id (by simp [hbare]) (by simp [hrole])).mp
    fun h => absurd h (by decide)).1

/-- The role of the first entry is the name of the second one of the other configuration. -/
theorem role_read_as_name : ∃ xs ys : List ConfigEntry,
    (xs.map ConfigEntry.name).Nodup ∧ (ys.map ConfigEntry.name).Nodup ∧
    ∀ sha256 : Bytes → Bytes, (new sha256 xs).hash = (new sha256 ys).hash ∧
      (new sha256 xs).entries ≠ (new sha256 ys).entries := by
  refine ⟨[⟨"a", "x", ""⟩, ⟨"b", "c", "r"⟩], [⟨"a", "x", "b"⟩, ⟨"c", "r", ""⟩], by decide, by decide, fun sha256 => ?_⟩
  refine ⟨congrArg sha256 (show List.flatMap ConfigEntry.framed _ = _ by decide), ?_⟩
  exact show List.insertionSort _ _ ≠ List.insertionSort _ _ by decide

end DesiredConfig

end OpampFleet.Server
