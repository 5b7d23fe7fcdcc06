import RegionLogic.Proofs.Calls
import RegionLogic.Proofs.World.Quote
import RegionLogic.World.Export

/-!
# Drawn worlds

A drawing is built twice, from the regions of a world and again from quoted texts, by adding first its
boxes and then its arrows. An arrow brings in a box without a label where it leads to nothing that is
there, and two names with the same quoted form would become one box. Neither happens to a world that has
been built: its exits lead to its regions, no two of them from one region to the same one, and different
texts have different quoted forms. How boxes and arrows are written does not matter for this.

## Main definitions

* `Drawing.drawn`: the drawing of boxes and arrows
* `Drawing.Proper`: drawings in which every arrow leads to a labelled box
* `Drawing.mapTexts`: a drawing with other texts
* `World.Closed`: worlds in which every exit leads to a region

## Main results

* `Drawing.Proper.redraw`: such a drawing is that of its boxes and its arrows
* `Drawing.Proper.quoted_eq`: the quoted drawing is the drawing of quoted texts
* `closed_of_build`: worlds that are built are closed
* `drawn_after_calls`: the drawing of a world that is built after any calls
-/

namespace RegionLogic

/-! ## Boxes and arrows -/

/-- The node with further arrows; an arrow to a node to which there is one takes its place. -/
def DrawnNode.extend (n : DrawnNode) (arrows : List (String × Nat)) : DrawnNode :=
  { n with arrows := arrows.foldl (fun t a => Entries.set t a.1 a.2) n.arrows }

namespace Drawing

/-- The drawing of boxes, which are given with their labels, and of arrows. -/
def drawn (boxes : List (String × String)) (arrows : List (String × String × Nat)) : Drawing :=
  arrows.foldl (fun d a => d.addArrow a.1 a.2.1 a.2.2) (boxes.foldl (fun d b => d.addNode b.1 b.2) {})

/-- The arrows that leave a node. -/
def leaving (name : String) (arrows : List (String × String × Nat)) : List (String × Nat) :=
  (arrows.filter (·.1 = name)).map (·.2)

/-- The drawing in which `f` is applied to every name and label. -/
def mapTexts (f : String → String) (d : Drawing) : Drawing :=
  ⟨d.nodes.map fun n => (f n.1, ⟨n.2.label.map f, n.2.arrows.map fun a => (f a.1, a.2)⟩)⟩

/-- Every arrow leads to a node, every node has a label and a name of its own, and there is at most one arrow
from one node to another. -/
structure Proper (d : Drawing) : Prop where
  names_nodup : (Entries.keys d.nodes).Nodup
  labelled : ∀ n ∈ d.nodes, n.2.label ≠ none
  targets_nodup : ∀ n ∈ d.nodes, (Entries.keys n.2.arrows).Nodup
  target_mem : ∀ n ∈ d.nodes, ∀ t ∈ Entries.keys n.2.arrows, t ∈ Entries.keys d.nodes

variable {d : Drawing} {name source target : String} {arrows : List (String × String × Nat)}

/-- What the nodes of one name give is what one node gives, since names are different. -/
theorem flatMap_of_mem {α : Type} {nodes : List (String × DrawnNode)} (h : (Entries.keys nodes).Nodup)
    {n : String × DrawnNode} (hn : n ∈ nodes) (f : String × DrawnNode → List α) :
    (nodes.flatMap fun n' => if n'.1 = n.1 then f n' else []) = f n := by
  induction nodes with
  | nil => cases hn
  | cons n' nodes ih =>
    rw [Entries.keys_cons, List.nodup_cons] at h
    rw [List.flatMap_cons]
    rcases List.mem_cons.1 hn with rfl | hn
    · have hrest : (nodes.flatMap fun n' => if n'.1 = n.1 then f n' else []) = [] :=
        List.flatMap_eq_nil_iff.2 fun n' hn' =>
          if_neg fun hname : n'.1 = n.1 => h.1 (hname ▸ List.mem_map_of_mem hn')
      rw [if_pos rfl, hrest, List.append_nil]
    · have hne : n'.1 ≠ n.1 := fun hname => h.1 (hname ▸ List.mem_map_of_mem hn)
      rw [if_neg hne, List.nil_append, ih h.2 hn]

theorem touch_of_mem (h : name ∈ Entries.keys d.nodes) : d.touch name = d := if_pos (Entries.has_iff.2 h)

theorem nodes_addNode (h : name ∉ Entries.keys d.nodes) (label : String) :
    (d.addNode name label).nodes = d.nodes ++ [(name, ⟨some label, []⟩)] := by
  have hhas : ¬Entries.has d.nodes name = true := fun hhas => h (Entries.has_iff.1 hhas)
  rw [addNode, touch, if_neg hhas, Entries.set_of_not_mem h, Entries.adjust_concat h]

/-- Boxes with different names are added one after the other. -/
theorem nodes_foldl_addNode {boxes : List (String × String)}
    (h : (Entries.keys d.nodes ++ boxes.map (·.1)).Nodup) :
    (boxes.foldl (fun d b => d.addNode b.1 b.2) d).nodes =
      d.nodes ++ boxes.map fun b => (b.1, ⟨some b.2, []⟩) := by
  induction boxes generalizing d with
  | nil => simp
  | cons b boxes ih =>
    have hnew : b.1 ∉ Entries.keys d.nodes := fun hb =>
      (List.nodup_append.1 h).2.2 b.1 hb b.1 (by simp) rfl
    have hnodes := nodes_addNode hnew b.2
    have hrest : (Entries.keys (d.addNode b.1 b.2).nodes ++ boxes.map (·.1)).Nodup := by
      rw [hnodes, Entries.keys, List.map_append]
      simpa [Entries.keys] using h
    rw [List.foldl_cons, ih hrest, hnodes, List.map_cons, List.append_assoc, List.singleton_append]

theorem leaving_cons (name : String) (a : String × String × Nat) (arrows : List (String × String × Nat)) :
    leaving name (a :: arrows) = leaving name [a] ++ leaving name arrows := by
  rw [← List.singleton_append, leaving, List.filter_append, List.map_append]
  rfl

theorem nodes_addArrow (h : (Entries.keys d.nodes).Nodup) (hsource : source ∈ Entries.keys d.nodes)
    (htarget : target ∈ Entries.keys d.nodes) (branches : Nat) :
    (d.addArrow source target branches).nodes =
      d.nodes.map fun n => (n.1, n.2.extend (leaving n.1 [(source, target, branches)])) := by
  rw [addArrow, touch_of_mem hsource, touch_of_mem htarget, Entries.adjust_eq_map h]
  refine List.map_congr_left fun n _ => ?_
  by_cases hn : n.1 = source
  · simp [hn, leaving, DrawnNode.extend]
  · simp [hn, Ne.symm hn, leaving, DrawnNode.extend]

/-- Between boxes that are there arrows add no box. -/
theorem nodes_foldl_addArrow (h : (Entries.keys d.nodes).Nodup)
    (hends : ∀ a ∈ arrows, a.1 ∈ Entries.keys d.nodes ∧ a.2.1 ∈ Entries.keys d.nodes) :
    (arrows.foldl (fun d a => d.addArrow a.1 a.2.1 a.2.2) d).nodes =
      d.nodes.map fun n => (n.1, n.2.extend (leaving n.1 arrows)) := by
  induction arrows generalizing d with
  | nil => simp [leaving, DrawnNode.extend]
  | cons a arrows ih =>
    obtain ⟨⟨hsource, htarget⟩, hrest⟩ := List.forall_mem_cons.1 hends
    have hnodes := nodes_addArrow h hsource htarget a.2.2
    have hkeys : Entries.keys (d.addArrow a.1 a.2.1 a.2.2).nodes = Entries.keys d.nodes := by
      rw [hnodes, Entries.keys, List.map_map]
      rfl
    rw [List.foldl_cons, ih (hkeys ▸ h) (hkeys ▸ hrest), hnodes, List.map_map]
    refine List.map_congr_left fun n _ => ?_
    rw [leaving_cons]
    simp [DrawnNode.extend]

/-! ## Proper drawings -/

theorem mem_arrows {a : String × String × Nat} :
    a ∈ d.arrows ↔ ∃ n ∈ d.nodes, ∃ b ∈ n.2.arrows, (n.1, b) = a := by
  simp only [arrows, List.mem_flatMap, List.mem_map]

theorem leaving_map (name source : String) (targets : List (String × Nat)) :
    leaving name (targets.map (source, ·)) = if source = name then targets else [] := by
  split
  · next h => simp [leaving, List.filter_map, Function.comp_def, h]
  · next h => simp [leaving, List.filter_map, Function.comp_def, h]

theorem leaving_arrows (h : (Entries.keys d.nodes).Nodup) {n : String × DrawnNode} (hn : n ∈ d.nodes) :
    leaving n.1 d.arrows = n.2.arrows := by
  have hparts : leaving n.1 d.arrows = d.nodes.flatMap fun n' => if n'.1 = n.1 then n'.2.arrows else [] := by
    rw [leaving, Drawing.arrows, List.filter_flatMap, List.map_flatMap]
    exact congrArg (List.flatMap · d.nodes) (funext fun n' => leaving_map n.1 n'.1 n'.2.arrows)
  rw [hparts]
  exact flatMap_of_mem h hn fun n => n.2.arrows

/-- A proper drawing is the drawing of its boxes and its arrows. -/
theorem Proper.redraw (h : d.Proper) : drawn d.boxes d.arrows = d := by
  have hnames : d.boxes.map (·.1) = Entries.keys d.nodes := by
    rw [boxes, List.map_map]
    rfl
  have hnodup : (Entries.keys ({} : Drawing).nodes ++ d.boxes.map (·.1)).Nodup := by
    rw [hnames]
    exact h.names_nodup
  have hboxes := nodes_foldl_addNode hnodup
  rw [List.nil_append] at hboxes
  have hkeys : Entries.keys (d.boxes.foldl (fun d b => d.addNode b.1 b.2) ({} : Drawing)).nodes =
      Entries.keys d.nodes := by
    rw [hboxes, Entries.keys, List.map_map, ← hnames]
    rfl
  have hends : ∀ a ∈ d.arrows, a.1 ∈ Entries.keys d.nodes ∧ a.2.1 ∈ Entries.keys d.nodes := by
    intro a ha
    obtain ⟨n, hn, b, hb, rfl⟩ := mem_arrows.1 ha
    exact ⟨List.mem_map_of_mem hn, h.target_mem n hn b.1 (List.mem_map_of_mem hb)⟩
  -- the boxes are without arrows when the arrows are added
  have harrows := nodes_foldl_addArrow (hkeys ▸ h.names_nodup) (hkeys ▸ hends)
  rw [hboxes, boxes, List.map_map, List.map_map] at harrows
  refine congrArg Drawing.mk (harrows.trans ?_)
  refine (List.map_congr_left fun n hn => ?_).trans (List.map_id d.nodes)
  obtain ⟨label, hlabel⟩ := Option.ne_none_iff_exists'.1 (h.labelled n hn)
  have htargets := Entries.foldl_set_of_nodup (t := []) (l := n.2.arrows) (h.targets_nodup n hn)
  simp only [Function.comp_apply, DrawnNode.extend, leaving_arrows h.names_nodup hn, htargets, hlabel,
    Option.getD_some, List.nil_append, id_eq]
  rw [← hlabel]

theorem links_eq (d : Drawing) :
    d.links = d.nodes.flatMap fun n => n.2.arrows.map fun a => (n.1, a.1) := by
  rw [links, arrows, List.map_flatMap]
  simp only [List.map_map, Function.comp_def]

/-- Between two nodes of a proper drawing there is at most one arrow. -/
theorem Proper.links_nodup (h : d.Proper) : d.links.Nodup := by
  rw [links_eq, List.nodup_flatMap]
  constructor
  · intro n hn
    have htargets := (h.targets_nodup n hn).map (Prod.mk_right_injective n.1)
    simpa [Entries.keys, Function.comp_def] using htargets
  · refine (List.pairwise_map.1 h.names_nodup).imp fun {n n'} hne => ?_
    -- the arrows of two nodes differ in the node that they leave
    intro a ha ha'
    obtain ⟨b, -, rfl⟩ := List.mem_map.1 ha
    obtain ⟨b', -, hb⟩ := List.mem_map.1 ha'
    exact hne (Prod.mk.inj hb).1.symm

/-! ## Other texts -/

theorem keys_mapTexts (f : String → String) (d : Drawing) :
    Entries.keys (d.mapTexts f).nodes = (Entries.keys d.nodes).map f := by
  rw [mapTexts, Entries.keys, Entries.keys, List.map_map, List.map_map]
  rfl

theorem boxes_mapTexts (f : String → String) (h : ∀ n ∈ d.nodes, n.2.label ≠ none) :
    (d.mapTexts f).boxes = d.boxes.map fun b => (f b.1, f b.2) := by
  rw [boxes, boxes, mapTexts, List.map_map, List.map_map]
  refine List.map_congr_left fun n hn => ?_
  obtain ⟨label, hlabel⟩ := Option.ne_none_iff_exists'.1 (h n hn)
  simp [hlabel]

theorem arrows_mapTexts (f : String → String) (d : Drawing) :
    (d.mapTexts f).arrows = d.arrows.map fun a => (f a.1, f a.2.1, a.2.2) := by
  rw [arrows, arrows, mapTexts, List.map_flatMap, List.flatMap_map]
  simp only [List.map_map, Function.comp_def]

theorem links_mapTexts (f : String → String) (d : Drawing) :
    (d.mapTexts f).links = d.links.map fun a => (f a.1, f a.2) := by
  rw [links, links, arrows_mapTexts, List.map_map, List.map_map]
  rfl

/-- Texts that stay different leave a drawing proper. -/
theorem Proper.mapTexts {f : String → String} (h : d.Proper) (hf : Function.Injective f) :
    (d.mapTexts f).Proper where
  names_nodup := keys_mapTexts f d ▸ h.names_nodup.map hf
  labelled n' hn' := by
    obtain ⟨n, hn, rfl⟩ := List.mem_map.1 hn'
    simpa using h.labelled n hn
  targets_nodup n' hn' := by
    obtain ⟨n, hn, rfl⟩ := List.mem_map.1 hn'
    simpa [Entries.keys, Function.comp_def] using (h.targets_nodup n hn).map hf
  target_mem n' hn' t' ht' := by
    obtain ⟨n, hn, rfl⟩ := List.mem_map.1 hn'
    obtain ⟨a', ha', rfl⟩ := List.mem_map.1 ht'
    obtain ⟨a, ha, rfl⟩ := List.mem_map.1 ha'
    rw [keys_mapTexts]
    exact List.mem_map_of_mem (h.target_mem n hn a.1 (List.mem_map_of_mem ha))

/-- A proper drawing can be quoted, and then it is the drawing of the quoted texts. -/
theorem Proper.quoted_eq (h : d.Proper) : d.quoted = .ok (d.mapTexts quote) := by
  rw [quoted, foldlM_eq_ok
    (g := fun (q : Drawing) (n : String × DrawnNode) => q.addNode (quote n.1) (quote (n.2.label.getD "")))]
  · rw [← (h.mapTexts quote_injective).redraw, drawn, boxes_mapTexts quote h.labelled, arrows_mapTexts,
      List.foldl_map, List.foldl_map, boxes, List.foldl_map]
    rfl
  · intro n hn q
    obtain ⟨label, hlabel⟩ := Option.ne_none_iff_exists'.1 (h.labelled n hn)
    simp only [hlabel]
    rfl

end Drawing

/-! ## The drawing of a world -/

/-- The label of a region, every name being written as in messages. -/
def Region.labelText (r : Region) : String := "\n".intercalate ((r.name :: r.locations).map Name.spelling)

/-- The box of a region, with its arrows. -/
def Region.box (r : Region) : String × DrawnNode :=
  (r.name.spelling, ⟨some r.labelText, r.exits.map fun e => (e.target.spelling, e.logic.length)⟩)

namespace World

/-- Every exit leads to a region, no two from one region to the same one, and no two regions have the same
name. -/
structure Closed (w : World) : Prop where
  names_nodup : (w.regions.map (·.name)).Nodup
  targets_nodup : ∀ r ∈ w.regions, r.targets.Nodup
  target_mem : ∀ r ∈ w.regions, ∀ t ∈ r.targets, t ∈ w.regions.map (·.name)

/-- The names of the regions and of what is placed in them as locations are texts. -/
def Labelled (w : World) : Prop := ∀ r ∈ w.regions, ∀ n ∈ r.name :: r.locations, n.text? ≠ none

variable {w : World} {d : Drawing} {fault : Fault}

theorem Labelled.name (h : w.Labelled) {n : Name} (hn : n ∈ w.regions.map (·.name)) : n.text? ≠ none := by
  obtain ⟨r, hr, rfl⟩ := List.mem_map.1 hn
  exact h r hr r.name (by simp)

theorem Closed.proper (hw : w.Closed) (htext : w.Labelled) :
    (Drawing.mk (w.regions.map Region.box)).Proper where
  names_nodup := by
    -- texts are drawn as they are, so different regions are different boxes
    have hnames := nodup_map_of_texts Name.spelling_text hw.names_nodup fun n => htext.name
    simpa [Entries.keys, Region.box, Function.comp_def] using hnames
  labelled n hn := by
    obtain ⟨r, -, rfl⟩ := List.mem_map.1 hn
    simp [Region.box]
  targets_nodup n hn := by
    obtain ⟨r, hr, rfl⟩ := List.mem_map.1 hn
    have htargets := nodup_map_of_texts Name.spelling_text (hw.targets_nodup r hr) fun t ht =>
      htext.name (hw.target_mem r hr t ht)
    simpa [Entries.keys, Region.box, Region.targets, Function.comp_def] using htargets
  target_mem n hn t ht := by
    obtain ⟨r, hr, rfl⟩ := List.mem_map.1 hn
    obtain ⟨a, ha, rfl⟩ := List.mem_map.1 ht
    obtain ⟨e, he, rfl⟩ := List.mem_map.1 ha
    obtain ⟨r', hr', hname⟩ := List.mem_map.1 (hw.target_mem r hr e.target (List.mem_map_of_mem he))
    refine List.mem_map.2 ⟨r'.box, List.mem_map_of_mem hr', ?_⟩
    exact congrArg Name.spelling hname

/-- A closed world whose names are texts is drawn as the boxes of its regions. -/
theorem Closed.drawing_eq (hw : w.Closed) (htext : w.Labelled) :
    w.drawing = .ok ⟨w.regions.map Region.box⟩ := by
  rw [drawing, foldlM_eq_ok (g := fun (d : Drawing) (r : Region) => d.addNode r.name.spelling r.labelText)]
  · -- with their labels known, boxes and arrows are added as in the drawing of the regions' boxes
    rw [← (hw.proper htext).redraw, Drawing.drawn, Drawing.boxes, Drawing.arrows, List.map_map,
      List.foldl_map, List.flatMap_map, List.foldl_flatMap]
    simp only [Region.box, List.foldl_map]
    rfl
  · intro r hr d
    rw [label, joinNames_of_texts "\n" (htext r hr)]
    rfl

theorem labelled_of_drawing (h : w.drawing = .ok d) : w.Labelled := by
  obtain ⟨boxes, hboxes, -⟩ := bind_eq_ok.1 h
  intro r hr
  obtain ⟨d, d', hstep⟩ := exists_ok_of_foldlM hboxes r hr
  obtain ⟨text, hlabel, -⟩ := bind_eq_ok.1 hstep
  exact texts_of_joinNames hlabel

theorem exists_shape_of_drawing (h : w.drawing = .error fault) : ∃ cause, fault = .shape cause := by
  rcases bind_eq_error.1 h with hboxes | ⟨boxes, -, hrest⟩
  · obtain ⟨r, -, d, hstep⟩ := exists_error_of_foldlM hboxes
    rcases bind_eq_error.1 hstep with hlabel | ⟨text, -, hnode⟩
    · exact (exists_odd_of_joinNames hlabel).1
    · cases hnode
  · cases hrest

/-- The drawing of a closed world whose names are texts is written with its texts quoted. -/
theorem Closed.drawingText_eq [DrawingWriter] (hw : w.Closed) (htext : w.Labelled) :
    w.drawingText =
      let quoted := (Drawing.mk (w.regions.map Region.box)).mapTexts Drawing.quote
      DrawingWriter.write quoted.boxes quoted.links := by
  have hquoted := (hw.proper htext).quoted_eq
  simp only [drawingText, hw.drawing_eq htext, bind, Except.bind, hquoted]

end World

/-! ## Worlds that have been built -/

open Building

theorem RegionGraph.Consistent.closed {g : RegionGraph} (hg : g.Consistent) : g.world.Closed := by
  obtain ⟨hnames, hexits, -, -⟩ := hg.shows_world
  have htargets : ∀ r ∈ g.world.regions, r.targets = g.targetsOf r.name := by
    intro r hr
    rw [Region.targets, hexits r hr]
    rfl
  refine ⟨hnames ▸ hg.names_nodup, fun r hr => ?_, fun r hr t ht => ?_⟩
  · rw [htargets r hr]
    exact hg.targetsOf_nodup r.name
  · rw [hnames]
    rw [htargets r hr] at ht
    exact hg.target_mem ht

/-- What a build hands on is closed. -/
theorem closed_of_build {s : Session} {classify : Classifier} {keep : NameSet} {options : CleanupOptions}
    {w : World} (hs : s.graph.Consistent) (h : (outcome (build classify keep options) s).1 = .ok w) :
    w.Closed := by
  obtain rfl := world_of_build hs h
  exact (consistent_clean hs).closed

open Drawing

/-- The drawing of a world that is built after any calls, if the names of its regions and locations are texts,
is quoted and then written. No box is without a label. The quoted drawing has one box for each region, with
its label, and one arrow for each region and target of an exit of it, and these are what is written. A name
that is no text is a fault before anything is written. For quoting loses no text: different texts have
different quoted forms, only the quote at the end is not escaped, no line break is left, and the text is had
again by undoing the escapes. -/
theorem drawn_after_calls [DrawingWriter] {calls : List Call} {classify : Classifier} {keep : NameSet}
    {options : CleanupOptions} {w : World}
    (h : (outcome (build classify keep options) (Session.after {} calls)).1 = .ok w) :
    (w.Labelled → ∃ d q, w.drawing = .ok d ∧ d.Proper ∧ d.quoted = .ok q ∧ q.Proper ∧
      q.boxes = w.regions.map (fun r => (quote r.name.spelling, quote r.labelText)) ∧
      q.links =
        w.regions.flatMap (fun r => r.exits.map fun e => (quote r.name.spelling, quote e.target.spelling)) ∧
      q.links.Nodup ∧ w.drawingText = DrawingWriter.write q.boxes q.links) ∧
    (¬w.Labelled → ∃ cause, w.drawing = .error (.shape cause) ∧ w.drawingText = .error (.shape cause)) ∧
    Function.Injective quote ∧
    ∀ s, (quote s).toList = '"' :: (escaped s.toList ++ ['"']) ∧ Encloses (escaped s.toList) ∧
      unescape (escaped s.toList) = s.toList := by
  have hw : w.Closed := closed_of_build (consistent_after (s := {}) RegionGraph.fresh_consistent calls) h
  refine ⟨fun htext => ?_, fun hodd => ?_, quote_injective,
    fun s => ⟨toList_quote s, encloses_escaped s.toList, unescape_escaped s.toList⟩⟩
  · have hproper := hw.proper htext
    have hquoted := hproper.mapTexts quote_injective
    refine ⟨_, _, hw.drawing_eq htext, hproper, hproper.quoted_eq, hquoted, ?_, ?_, hquoted.links_nodup,
      hw.drawingText_eq htext⟩
    · rw [boxes_mapTexts quote hproper.labelled, boxes, List.map_map, List.map_map]
      rfl
    · rw [links_mapTexts, links_eq, List.flatMap_map, List.map_flatMap]
      simp only [Region.box, List.map_map, Function.comp_def]
  · -- the labels are made first, and only texts can be joined to a label
    cases hdrawing : w.drawing with
    | ok d => exact absurd (World.labelled_of_drawing hdrawing) hodd
    | error fault =>
      obtain ⟨cause, rfl⟩ := World.exists_shape_of_drawing hdrawing
      refine ⟨cause, rfl, ?_⟩
      rw [World.drawingText, hdrawing]
      rfl

/-- Calls that bring in a region whose name ends in a backslash and a letter, and one whose name ends in a
line break. The second one has an exit to a region that becomes the start region. -/
def twinCalls : List Call :=
  [.connect startRegion .empty "a\\n",
    .connect startRegion { items := {("Rope" : Name)} } "a\n",
    .connect "a\\n" .empty "a\n",
    .ingest { name := "\"b\"", logic := [{}], handling := .location },
    .connect "a\n" .empty "Exit",
    .relabel "Exit",
    .clean (fun _ => .ok .neutral) ∅ {}]

/-- The world that is built then. -/
def twinWorld : World where
  regions := [
    { name := "Menu", locations := ["\"b\""]
      exits := [⟨"a\\n", [.empty]⟩, ⟨"a\n", [{ items := {("Rope" : Name)} }]⟩] },
    { name := "a\\n", exits := [⟨"a\n", [.empty]⟩] },
    { name := "a\n", exits := [⟨"Menu", [.empty]⟩] }]
  locations := [{ name := "\"b\"", logic := [.empty] }]
  transitions := []
  regionOfTransition := []

/-- The two regions stay two boxes, in the drawing and in its text. -/
theorem drawn_after_twinCalls :
    (outcome (build (fun _ => .error .noNode) ∅ {}) (Session.after {} twinCalls)).1 = .ok twinWorld ∧
    ∃ d q, twinWorld.drawing = .ok d ∧ d.quoted = .ok q ∧ q.Proper ∧
      q.boxes =
        [("\"Menu\"", "\"Menu\\n\\\"b\\\"\""), ("\"a\\\\n\"", "\"a\\\\n\""),
          ("\"a\\n\"", "\"a\\n\"")] ∧
      q.links =
        [("\"Menu\"", "\"a\\\\n\""), ("\"Menu\"", "\"a\\n\""), ("\"a\\\\n\"", "\"a\\n\""),
          ("\"a\\n\"", "\"Menu\"")] ∧
      twinWorld.drawingText = .ok ("strict digraph \x7b\n" ++
        "\"Menu\" [shape=box, label=\"Menu\\n\\\"b\\\"\"];\n" ++
        "\"a\\\\n\" [shape=box, label=\"a\\\\n\"];\n" ++
        "\"a\\n\" [shape=box, label=\"a\\n\"];\n" ++
        "\"Menu\" -> \"a\\\\n\";\n\"Menu\" -> \"a\\n\";\n" ++
        "\"a\\\\n\" -> \"a\\n\";\n\"a\\n\" -> \"Menu\";\n\x7d\n") := by
  have h : (outcome (build (fun _ => .error .noNode) ∅ {}) (Session.after {} twinCalls)).1 =
      .ok twinWorld := by decide +kernel
  have htext : twinWorld.Labelled := by
    unfold World.Labelled
    decide +kernel
  obtain ⟨d, q, hd, -, hq, hproper, hboxes, hlinks, -, hwritten⟩ := (drawn_after_calls h).1 htext
  refine ⟨h, d, q, hd, hq, hproper, hboxes.trans (by decide +kernel), hlinks.trans (by decide +kernel), ?_⟩
  rw [hwritten, hboxes, hlinks]
  decide +kernel

end RegionLogic
