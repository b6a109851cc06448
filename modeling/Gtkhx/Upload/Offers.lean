import Gtkhx.Upload.Stream

/-!
# What a folder's upload offers

Whatever the server answers, and whatever has become of the files, an upload that is through has
offered the entries that its ledger left, and one that was cut has offered the first of them.
-/

namespace Gtkhx.Upload

open Htxf Fallible

section Kept

variable {P : FolderLine → Prop}

/-- What does not depend on the subchannel is kept on it. -/
theorem onLine_keeps {α : Type} (m : Sending α) (hP : ∀ s l, P s → P { s with toLine := l }) :
    Keeps P (onLine m) := fun s hs => hP s (m.run s.toLine).2 hs

/-- What a program over the folder's line is to keep: it depends neither on the subchannel nor on
the ledger. -/
structure Apart (P : FolderLine → Prop) : Prop where
  line : ∀ s l, P s → P { s with toLine := l }
  ledger : ∀ s ledger, P s → P { s with ledger }

theorem Apart.closed (h : Apart P) (inSkipped : Bool) (e : Errno) (α : Type) :
    Keeps P (closed inSkipped e α) := by
  refine Keeps.bind (fun s hs => ?_) fun again => ?_
  · unfold hungUp Fallible.run
    dsimp only
    split
    · exact h.ledger s _ hs
    · exact hs
  · cases again <;> exact .fail _

theorem Apart.put (h : Apart P) (bytes : List UInt8) : Keeps P (put bytes) :=
  (onLine_keeps _ h.line).failWith

theorem Apart.sendSized (h : Apart P) (ffo : Ffo) (fp : FolderParams) (e : PutEntry)
    (inSkipped : Bool) (file : LocalFile) (dataPos rsrcPos : ℕ) :
    Keeps P (sendSized ffo fp e inSkipped file dataPos rsrcPos) := by
  unfold Upload.sendSized
  refine .ite (fun _ => .fail _) fun _ => .bind (h.put _) fun _ => ?_
  refine .ite (fun _ => .fail _) fun _ => .bind (onLine_keeps _ h.line).attempt fun sent => ?_
  cases sent with
  | ok => exact .pure _
  | error rv => exact .ite (fun _ => h.closed _ _ _) fun _ => .fail _

/-- Sending a file offers nothing. -/
theorem Apart.sendFrom (h : Apart P) (ffo : Ffo) (fp : FolderParams) (e : PutEntry)
    (inSkipped : Bool) (dataPos rsrcPos : ℕ) :
    Keeps P (sendFrom ffo fp e inSkipped dataPos rsrcPos) := by
  unfold Upload.sendFrom
  refine .bind .state fun s => ?_
  cases s.met e.components with
  | error err => exact .fail _
  | ok dated =>
    refine .ite (fun _ => .fail _) fun _ => .bind (.change fun s hs => h.ledger s _ hs) fun _ => ?_
    refine .bind (.ite (fun _ => .pure _) fun _ => onLine_keeps _ h.line) fun _ => ?_
    exact h.sendSized _ _ _ _ _ _ _

end Kept

/-- So many entries were offered. -/
theorem apart_offers (offers : List PutEntry) : Apart fun s => s.offers = offers :=
  ⟨fun _ _ h => h, fun _ _ h => h⟩

/-- A file that was sent made no folder. -/
theorem sendSized_folders (ffo : Ffo) (fp : FolderParams) (e : PutEntry) (inSkipped : Bool)
    (file : LocalFile) (dataPos rsrcPos : ℕ) (s : FolderLine) :
    Ends ((sendSized ffo fp e inSkipped file dataPos rsrcPos).run s)
      (fun _ s' => s'.ledger = s.ledger) (fun _ _ => True) := by
  unfold sendSized
  dsimp only
  split
  · trivial
  refine Ends.bind ((put_ends _ s).mono (fun _ _ _ h => h) fun _ _ _ _ => trivial) ?_
  rintro - s' - rfl
  split
  · trivial
  refine Ends.bind (Ends.ok.mpr (Eq.refl s.ledger) :
    Ends _ (fun _ s' => s'.ledger = s.ledger) _) ?_
  rintro sent s' - hledger
  cases sent with
  | ok => exact hledger
  | error rv =>
    dsimp only
    split
    · exact (closed_ends _ _ s').mono (fun _ _ _ h => h.elim) fun _ _ _ _ => trivial
    · trivial

theorem sendFrom_folders (ffo : Ffo) (fp : FolderParams) (e : PutEntry) (inSkipped : Bool)
    (dataPos rsrcPos : ℕ) (s : FolderLine) :
    Ends ((sendFrom ffo fp e inSkipped dataPos rsrcPos).run s)
      (fun _ s' => s'.ledger.folders = s.ledger.folders) (fun _ _ => True) := by
  unfold sendFrom
  refine Ends.bind (Q := fun r s' => r = s ∧ s' = s) ⟨rfl, rfl⟩ ?_
  rintro r s' - ⟨hr, hs'⟩
  subst r s'
  cases s.met e.components with
  | error err => trivial
  | ok dated =>
    dsimp only
    split
    · trivial
    refine Ends.bind ((noting_ends _ s).mono (fun _ _ _ h => h) fun _ _ _ h => h.elim) ?_
    rintro - s₁ - rfl
    refine Ends.bind (Q := fun _ s₂ => s₂.ledger.folders = s.ledger.folders) ?_ ?_
    · unfold reportHeld
      split <;> rfl
    rintro - s₂ - hfolders
    exact (sendSized_folders _ _ _ _ _ _ _ s₂).mono (fun _ _ _ h => h ▸ hfolders)
      fun _ _ _ _ => trivial

/-- The loop offers the entries that the ledger leaves, in their order, or is cut at one of them. -/
theorem folderLoop_offers (ffo : Ffo) (fp : FolderParams) (turn : Turn) {entries : List PutEntry}
    (hnodup : (entries.map PutEntry.rel).Nodup) {s : FolderLine}
    (hout : ∀ offered ∈ turn.offered, offered.1 ∉ entries.map PutEntry.rel) :
    Ends ((folderLoop ffo fp turn entries).run s)
      (fun _ s' => s'.offers = s.offers ++ leftOf (some s.ledger) entries)
      (fun _ s' => ∃ offered, offered <+: leftOf (some s.ledger) entries ∧
        s'.offers = s.offers ++ offered) := by
  induction entries generalizing turn s with
  | nil => exact (List.append_nil _).symm
  | cons e rest ih =>
    obtain ⟨hfirst, hrest⟩ := List.nodup_cons.mp hnodup
    have hout' : ∀ offered ∈ turn.offered, offered.1 ∉ rest.map PutEntry.rel :=
      fun offered hoffered hmem => hout offered hoffered (List.mem_cons_of_mem _ hmem)
    rw [folderLoop]
    refine Ends.bind (Q := fun r s' => r = s ∧ s' = s) ⟨rfl, rfl⟩ ?_
    rintro r s' - ⟨hr, hs'⟩
    subst r s'
    split
    next hmade =>
      rw [leftOf_cons_made hmade]
      exact ih _ hrest hout'
    next hmade =>
      rw [leftOf_cons hmade]
      have hcut {s' : FolderLine} (h : s'.offers = s.offers) :
          ∃ offered, offered <+: e :: leftOf (some s.ledger) rest ∧
            s'.offers = s.offers ++ offered :=
        ⟨[], List.nil_prefix, h.trans (List.append_nil _).symm⟩
      refine Ends.bind ((awaitNext_ends turn s).mono (fun _ _ _ h => h) fun _ s' _ h =>
        hcut h.offers) ?_
      rintro - s₁ - ⟨inner, rfl⟩
      refine Ends.bind ((learn_ends turn.offered _).mono (fun _ _ _ h => h)
        fun _ _ _ h => h.elim) ?_
      rintro - s₂ - rfl
      have hleft : leftOf (some ((s.meeting inner).learned turn.offered).ledger) rest =
          leftOf (some s.ledger) rest := by
        cases hoffered : turn.offered with
        | none => rfl
        | some made => exact leftOf_makes (hout' made hoffered)
      generalize hs₂ : (s.meeting inner).learned turn.offered = s₂ at hleft ⊢
      have hsame : s₂.offers = s.offers := hs₂ ▸ rfl
      refine Ends.bind ((offer_ends e s₂).mono (fun _ _ _ h => h) ?_) ?_
      · rintro - s' - ⟨part, -, rfl⟩
        exact hcut hsame
      rintro - s₃ - ⟨rfl, -⟩
      -- From here on the entry is offered, and what is left of the rest does not change.
      have hrests {turn' : Turn} {s' : FolderLine} (hoffers : s'.offers = s.offers ++ [e])
          (hfolders : s'.ledger.folders = s₂.ledger.folders)
          (hout₂ : ∀ offered ∈ turn'.offered, offered.1 ∉ rest.map PutEntry.rel) :
          Ends ((folderLoop ffo fp turn' rest).run s')
            (fun _ s₄ => s₄.offers = s.offers ++ e :: leftOf (some s.ledger) rest)
            (fun _ s₄ => ∃ offered, offered <+: e :: leftOf (some s.ledger) rest ∧
              s₄.offers = s.offers ++ offered) := by
        have heq := (leftOf_of_folders hfolders rest).trans hleft
        refine (ih turn' hrest hout₂).mono ?_ ?_ <;> rw [hoffers, heq]
        · rintro - s₄ - hall
          rw [hall, List.append_assoc, List.singleton_append]
        · rintro - s₄ - ⟨offered, hprefix, hpart⟩
          refine ⟨e :: offered, List.cons_prefix_cons.mpr ⟨rfl, hprefix⟩, ?_⟩
          rw [hpart, List.append_assoc, List.singleton_append]
      have hhere {s' : FolderLine} (h : s'.offers = s.offers ++ [e]) :
          ∃ offered, offered <+: e :: leftOf (some s.ledger) rest ∧
            s'.offers = s.offers ++ offered :=
        ⟨[e], List.cons_prefix_cons.mpr ⟨rfl, List.nil_prefix⟩, h⟩
      have hnow : (s₂.offering e).offers = s.offers ++ [e] := congrArg (· ++ [e]) hsame
      split
      · exact hrests hnow rfl (by rintro - ⟨⟩; exact hfirst)
      · refine Ends.bind ((readAnswer_ends _ _).mono (fun _ _ _ h => h) fun _ s' _ h =>
          hhere (h.offers.trans hnow)) ?_
        rintro asking s₄ - ⟨inner', rfl⟩
        cases asking with
        | next => exact hrests hnow rfl (by rintro - ⟨⟩)
        | «from» dataPos rsrcPos =>
          have hkept := (apart_offers (s.offers ++ [e])).sendFrom ffo fp e
            (!e.isFolder && turn.skipped.any (·.isPrefixOf e.components)) dataPos rsrcPos
          refine Ends.bind (((sendFrom_folders ffo fp e _ dataPos rsrcPos
            ((s₂.offering e).meeting inner')).and_keeps hkept hnow).mono (fun _ _ _ h => h)
            fun _ _ _ h => hhere h.2) ?_
          rintro - s₅ - ⟨hfolders, hoffers⟩
          exact hrests hoffers hfolders (by rintro - ⟨⟩)

/-- An upload that is through has offered what `put_totals` counts with its ledger, and one that was
cut the first of it. -/
theorem folderSend_offers (ffo : Ffo) (fp : FolderParams) (folder : LocalFolder) (s : FolderLine) :
    Ends ((folderSend ffo fp folder.planned).run s)
      (fun _ s' => s'.offers = s.offers ++ leftOf (some s.ledger) folder.planned)
      (fun _ s' => ∃ offered, offered <+: leftOf (some s.ledger) folder.planned ∧
        s'.offers = s.offers ++ offered) :=
  folderLoop_offers ffo fp {} folder.nodup_rel (by simp)

end Gtkhx.Upload
