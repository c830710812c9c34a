import LispMachine.Proofs.CallSite.CalleeSites
import LispMachine.Proofs.Naming.Sessions

/-! # Serials in a session

In every world that a session goes through, the classes of its objects are told apart by their serials
(`serialsApart_session`): the session starts with the built-in classes, each under a serial of its own, and whatever is
done in it goes on with the book of registrations. -/

namespace LispMachine.Machine

open Naming Relation

theorem serialsApart_of_recorded {w : World} {book : List ClassInfo} (h : w.Recorded book) : SerialsApart w := by
  intro o o' i i' hi hi' hserial
  have hcls := h.objects o i hi
  rw [hserial, h.objects o' i' hi'] at hcls
  exact (Option.some.inj hcls).symm

theorem nameless_defineCore (w : World) (name : String) (value : Value) : Nameless w (w.defineCore name value) :=
  (nameless_intern w Names.coreSpace name).trans (nameless_of_eq rfl rfl rfl rfl)

/-- The vars of the core namespace are defined beside the classes. -/
theorem records_core : World.Records { registry := Host.registry, current := Names.userSpace } World.core := by
  have hspaces : ∀ w : World, Nameless w ((w.ensureSpace Names.userSpace).ensureSpace Names.coreSpace) := by
    intro w
    rw [World.ensureSpace_eq, w.ensureSpace_eq]
    exact nameless_of_eq rfl rfl rfl rfl
  have hforms : ∀ w : World,
      Nameless w (SpecialForm.all.foldl (fun w f => w.defineCore f.title (.special f)) w) := fun w =>
    List.foldlRecOn _ _ (.refl w) fun v hv f _ => hv.trans (nameless_defineCore v f.title _)
  have hnatives : ∀ w : World,
      Nameless w (Native.all.foldl (fun w n => w.defineCore n.title (.function (.native n))) w) := fun w =>
    List.foldlRecOn _ _ (.refl w) fun v hv n _ => hv.trans (nameless_defineCore v n.title _)
  have hprepared : ∀ w : World, Nameless w (w.prepareSpace Names.userSpace) := by
    intro w
    rw [World.prepareSpace_eq]
    exact nameless_of_eq rfl rfl rfl rfl
  exact ((((hspaces _).trans (hforms _)).trans (hnatives _)).trans (hprepared _)).records

/-- The built-in classes are in the book at the start, and there are no objects. -/
theorem exists_recorded_start (options : Options) : ∃ book, (World.start options).Recorded book := by
  obtain ⟨book, hbook⟩ := Registry.exists_recorded_host
  obtain ⟨more, hcore⟩ := records_core book (World.recorded_of_registry hbook Names.userSpace)
  refine ⟨book ++ more, ?_⟩
  unfold World.start
  generalize World.core = w at hcore
  exact ⟨hcore.registry, hcore.objects⟩

/-- Whatever is done in a session, objects whose classes have one serial are of one class. -/
theorem serialsApart_session [Libraries] {options : Options} {w : World}
    (h : ReflTransGen Activity (World.start options) w) : SerialsApart w := by
  obtain ⟨book, hbook⟩ := exists_recorded_start options
  obtain ⟨more, hmore⟩ := records_session h book hbook
  exact serialsApart_of_recorded hmore

end LispMachine.Machine
