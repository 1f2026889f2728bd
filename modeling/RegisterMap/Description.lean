import RegisterMap.Text.Blank

/-!
# Descriptions

A description says something: a text of blank characters alone counts as none.
-/

namespace RegisterMap

structure Description where
  text : Text
  not_blank : ¬ text.all Text.isBlank

namespace Description

instance : DecidableEq Description := fun a b =>
  if h : a.text = b.text then
    .isTrue (by cases a; cases b; cases h; rfl)
  else .isFalse fun hab => h (hab ▸ rfl)

def ofText? (s : Text) : Option Description :=
  if h : s.all Text.isBlank then none else some ⟨s, h⟩

def ofOption? (s : Option Text) : Option Description := s.bind ofText?

end Description

end RegisterMap
