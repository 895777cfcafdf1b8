import UnitPipeline.Json.Form
import UnitPipeline.Unit.Record

namespace UnitPipeline.Json

instance : Form Span where
  shape := .record "struct Span"
    (.cons "start" (.word .word64) (.cons "end" (.word .word64) .nil))
  toValue s := (s.start, s.stop, ())
  ofValue v := ⟨v.1, v.2.1⟩

instance : Form Position where
  shape := .record "struct Position"
    (.cons "offset" (.word .word64)
      (.cons "line" (.word .word32) (.cons "column" (.word .word32) .nil)))
  toValue p := (p.offset, p.line, p.column, ())
  ofValue v := ⟨v.1, v.2.1, v.2.2.1⟩

instance : Form NodeId where
  shape := .word .word32
  toValue id := id.number
  ofValue v := ⟨v⟩

instance : Form DeclId where
  shape := .word .word32
  toValue id := id.number
  ofValue v := ⟨v⟩

instance : Form Feature where
  shape := .text
  toValue f := f.name
  ofValue v := ⟨v⟩

instance : Form TermName where
  shape := .text
  toValue n := n.text
  ofValue v := ⟨v⟩

instance : Form TypeName where
  shape := .text
  toValue n := n.text
  ofValue v := ⟨v⟩

instance : Form DeclKind where
  shape := .choice (.plain "Package" (.plain "Class" (.plain "Trait" (.plain "Object"
    (.plain "Method" (.plain "Value" (.plain "TypeAlias" .nil)))))))
  toValue
    | .package => .inl ()
    | .classType => .inr (.inl ())
    | .traitType => .inr (.inr (.inl ()))
    | .object => .inr (.inr (.inr (.inl ())))
    | .method => .inr (.inr (.inr (.inr (.inl ()))))
    | .value => .inr (.inr (.inr (.inr (.inr (.inl ())))))
    | .typeAlias => .inr (.inr (.inr (.inr (.inr (.inr (.inl ()))))))
  ofValue
    | .inl _ => .package
    | .inr (.inl _) => .classType
    | .inr (.inr (.inl _)) => .traitType
    | .inr (.inr (.inr (.inl _))) => .object
    | .inr (.inr (.inr (.inr (.inl _)))) => .method
    | .inr (.inr (.inr (.inr (.inr (.inl _))))) => .value
    | .inr (.inr (.inr (.inr (.inr (.inr (.inl _)))))) => .typeAlias

instance : Form CheckPoint where
  shape := .choice (.plain "PostUnit" (.plain "PostTyper" .nil))
  toValue
    | .postUnit => .inl ()
    | .postTyper => .inr (.inl ())
  ofValue
    | .inl _ => .postUnit
    | .inr (.inl _) => .postTyper

instance : Form Severity where
  shape := .choice (.plain "Info" (.plain "Warning" (.plain "Error" .nil)))
  toValue
    | .info => .inl ()
    | .warning => .inr (.inl ())
    | .error => .inr (.inr (.inl ()))
  ofValue
    | .inl _ => .info
    | .inr (.inl _) => .warning
    | .inr (.inr (.inl _)) => .error

instance : Form Phase where
  shape := .choice (.plain "Init" (.plain "Parser" (.plain "Namer" (.plain "Typer"
    (.plain "Backend" (.plain "Terminal" .nil))))))
  toValue
    | .init => .inl ()
    | .parser => .inr (.inl ())
    | .namer => .inr (.inr (.inl ()))
    | .typer => .inr (.inr (.inr (.inl ())))
    | .backend => .inr (.inr (.inr (.inr (.inl ()))))
    | .terminal => .inr (.inr (.inr (.inr (.inr (.inl ())))))
  ofValue
    | .inl _ => .init
    | .inr (.inl _) => .parser
    | .inr (.inr (.inl _)) => .namer
    | .inr (.inr (.inr (.inl _))) => .typer
    | .inr (.inr (.inr (.inr (.inl _)))) => .backend
    | .inr (.inr (.inr (.inr (.inr (.inl _))))) => .terminal

def textVariant (owner name field : String) (rest : Variants) : Variants :=
  .fielded name ("struct variant " ++ owner ++ "::" ++ name) (.cons field .text .nil) rest

instance : Form NodeKind where
  shape := .choice
    (textVariant "NodeKind" "Package" "name" (textVariant "NodeKind" "Import" "path"
    (textVariant "NodeKind" "ClassDef" "name" (textVariant "NodeKind" "DefDef" "name"
    (textVariant "NodeKind" "ValDef" "name" (.plain "Block" (.plain "Apply"
    (textVariant "NodeKind" "Ident" "name" (textVariant "NodeKind" "Literal" "value"
    (.plain "XmlLiteral" (textVariant "NodeKind" "Synthetic" "name" .nil)))))))))))
  toValue
    | .package name => .inl (name, ())
    | .importPath path => .inr (.inl (path, ()))
    | .classDef name => .inr (.inr (.inl (name, ())))
    | .defDef name => .inr (.inr (.inr (.inl (name, ()))))
    | .valDef name => .inr (.inr (.inr (.inr (.inl (name, ())))))
    | .block => .inr (.inr (.inr (.inr (.inr (.inl ())))))
    | .apply => .inr (.inr (.inr (.inr (.inr (.inr (.inl ()))))))
    | .ident name => .inr (.inr (.inr (.inr (.inr (.inr (.inr (.inl (name, ()))))))))
    | .literal value => .inr (.inr (.inr (.inr (.inr (.inr (.inr (.inr (.inl (value, ())))))))))
    | .xmlLiteral => .inr (.inr (.inr (.inr (.inr (.inr (.inr (.inr (.inr (.inl ())))))))))
    | .synthetic name =>
      .inr (.inr (.inr (.inr (.inr (.inr (.inr (.inr (.inr (.inr (.inl (name, ())))))))))))
  ofValue
    | .inl v => .package v.1
    | .inr (.inl v) => .importPath v.1
    | .inr (.inr (.inl v)) => .classDef v.1
    | .inr (.inr (.inr (.inl v))) => .defDef v.1
    | .inr (.inr (.inr (.inr (.inl v)))) => .valDef v.1
    | .inr (.inr (.inr (.inr (.inr (.inl _))))) => .block
    | .inr (.inr (.inr (.inr (.inr (.inr (.inl _)))))) => .apply
    | .inr (.inr (.inr (.inr (.inr (.inr (.inr (.inl v))))))) => .ident v.1
    | .inr (.inr (.inr (.inr (.inr (.inr (.inr (.inr (.inl v)))))))) => .literal v.1
    | .inr (.inr (.inr (.inr (.inr (.inr (.inr (.inr (.inr (.inl _))))))))) => .xmlLiteral
    | .inr (.inr (.inr (.inr (.inr (.inr (.inr (.inr (.inr (.inr (.inl v)))))))))) =>
      .synthetic v.1

instance : Form Node where
  shape := .record "struct Node"
    (.cons "kind" (Form.shape NodeKind)
      (.cons "span" (Form.shape Span) (.cons "children" (.list (.word .word32)) .nil)))
  toValue n := (Form.toValue n.kind, Form.toValue n.span, n.children.map (·.number), ())
  ofValue v := ⟨Form.ofValue v.1, Form.ofValue v.2.1, v.2.2.1.map fun id => ⟨id⟩⟩

instance : Form TreeArena where
  shape := .record "struct TreeArena" (.cons "nodes" (.list (Form.shape Node)) .nil)
  toValue t := (t.nodes.toList.map Form.toValue, ())
  ofValue v := ⟨(v.1.map Form.ofValue).toArray⟩

instance : Form DeferredCheck where
  shape := .choice
    (.fielded "FeatureEnabled" "struct variant DeferredCheck::FeatureEnabled"
      (.cons "feature" .text (.cons "pos" (Form.shape Position) .nil))
    (.plain "SyntheticsDrained"
    (.fielded "Computed" "struct variant DeferredCheck::Computed"
      (.cons "node" (.word .word32) .nil)
    (.fielded "Validate" "struct variant DeferredCheck::Validate"
      (.cons "code" .text (.cons "node" (.option (.word .word32))
        (.cons "message" .text .nil))) .nil))))
  toValue
    | .featureEnabled feature position => .inl (feature.name, Form.toValue position, ())
    | .syntheticsDrained => .inr (.inl ())
    | .computed node => .inr (.inr (.inl (node.number, ())))
    | .validate code node message =>
      .inr (.inr (.inr (.inl (code, node.map (·.number), message, ()))))
  ofValue
    | .inl v => .featureEnabled ⟨v.1⟩ (Form.ofValue v.2.1)
    | .inr (.inl _) => .syntheticsDrained
    | .inr (.inr (.inl v)) => .computed ⟨v.1⟩
    | .inr (.inr (.inr (.inl v))) => .validate v.1 (v.2.1.map fun id => ⟨id⟩) v.2.2.1

instance : Form Diagnostic where
  shape := .record "struct Diagnostic"
    (.cons "severity" (Form.shape Severity)
      (.cons "position" (Form.shape Position) (.cons "message" .text .nil)))
  toValue d := (Form.toValue d.severity, Form.toValue d.position, d.message, ())
  ofValue v := ⟨Form.ofValue v.1, Form.ofValue v.2.1, v.2.2.1⟩

instance : Form DependencyReport where
  shape := .record "struct DependencyReport"
    (.cons "source" .text
      (.cons "dependencies" (.list .text) (.cons "defined" (.list .text) .nil)))
  toValue r := (r.source, r.dependencies, r.defined, ())
  ofValue v := ⟨v.1, v.2.1, v.2.2.1⟩

instance : Form IrClass where
  shape := .record "struct IrClass"
    (.cons "name" .text
      (.cons "decl" (.option (.word .word32)) (.cons "code" (.list (.word .byte)) .nil)))
  toValue c := (c.name, c.decl.map (·.number), c.code, ())
  ofValue v := ⟨v.1, v.2.1.map fun id => ⟨id⟩, v.2.2.1⟩

-- Settings lie over the defaults: what is left out keeps its default, and what
-- is not known is refused.
instance : Form Settings where
  shape := .overlay "struct Settings"
    (.cons "track_dependencies" .flag
      (.cons "fresh_name_guard" .flag (.cons "stack_dump_depth" (.word .word64) .nil)))
  toValue s :=
    (some s.trackDependencies, some s.freshNameGuard, some s.stackDumpDepth, ())
  ofValue v :=
    let base : Settings := {}
    ⟨v.1.getD base.trackDependencies, v.2.1.getD base.freshNameGuard,
      v.2.2.1.getD base.stackDumpDepth⟩

end UnitPipeline.Json

namespace UnitPipeline

def Settings.ofJson (text : String) : Except Json.JsonError Settings := Json.decode Settings text

end UnitPipeline
