namespace CrossRef

/-- How a reference uses its binding. The kinds are numbered, and the number 4 was given up. -/
inductive ReferenceKind
  | unclassified
  | superConstructorCall
  | superMethodCall
  | methodCall
  | superType
  | superMethod
  | javadoc
  | returnType
  | localVariableType
  | parameterType
  | fieldType
  | typeConstraint
  | instanceOf
  | cast
  | importOf
  | annotationType
  | constructorCall
  | throwsDeclaration
  | staticMemberQualifier
  | methodReferenceReceiverType
  | typeParameter
  | wildcardBound
  | thisReferenceQualifier
  | superReferenceQualifier
  | annotationMemberValue
  | nestedClassQualifier
  | fieldRead
  | fieldWrite
  | fieldReadWrite
  | onDemandImport
  | packageDeclaration
  | memberReferenceQualifier
  | enclosingMethod
  | nestMember
  | nestHost
  | innerClass
  | indyType
  | indyBootstrap
  | mainClass
  | spiProvider
  deriving DecidableEq, Repr

namespace ReferenceKind

/-- Number, name and heading of a kind in listings. -/
structure Entry where
  id : UInt8
  name : String
  label : String

def entry : ReferenceKind → Entry
  | unclassified => ⟨0, "Unclassified", "Unclassified"⟩
  | superConstructorCall => ⟨1, "SuperConstructorCall", "Super constructor call"⟩
  | superMethodCall => ⟨2, "SuperMethodCall", "Super method call"⟩
  | methodCall => ⟨3, "MethodCall", "Method call"⟩
  | superType => ⟨5, "SuperType", "Super type"⟩
  | superMethod => ⟨6, "SuperMethod", "Super method"⟩
  | javadoc => ⟨7, "Javadoc", "Javadoc"⟩
  | returnType => ⟨8, "ReturnType", "Return type"⟩
  | localVariableType => ⟨9, "LocalVariableType", "Local variable type"⟩
  | parameterType => ⟨10, "ParameterType", "Parameter type"⟩
  | fieldType => ⟨11, "FieldType", "Field type"⟩
  | typeConstraint => ⟨12, "TypeConstraint", "Type constraint"⟩
  | instanceOf => ⟨13, "InstanceOf", "instanceof"⟩
  | cast => ⟨14, "Cast", "Cast type"⟩
  | importOf => ⟨15, "Import", "Import"⟩
  | annotationType => ⟨16, "AnnotationType", "Annotation type"⟩
  | constructorCall => ⟨17, "ConstructorCall", "Constructor call"⟩
  | throwsDeclaration => ⟨18, "ThrowsDeclaration", "Throws declaration"⟩
  | staticMemberQualifier => ⟨19, "StaticMemberQualifier", "Static member qualifier"⟩
  | methodReferenceReceiverType => ⟨20, "MethodReferenceReceiverType", "Method ref receiver"⟩
  | typeParameter => ⟨21, "TypeParameter", "Type parameter"⟩
  | wildcardBound => ⟨22, "WildcardBound", "Wildcard bound"⟩
  | thisReferenceQualifier => ⟨23, "ThisReferenceQualifier", "this reference qualifier"⟩
  | superReferenceQualifier => ⟨24, "SuperReferenceQualifier", "super reference qualifier"⟩
  | annotationMemberValue => ⟨25, "AnnotationMemberValue", "Annotation member value"⟩
  | nestedClassQualifier => ⟨26, "NestedClassQualifier", "Nested class qualifier"⟩
  | fieldRead => ⟨27, "FieldRead", "Field read"⟩
  | fieldWrite => ⟨28, "FieldWrite", "Field write"⟩
  | fieldReadWrite => ⟨29, "FieldReadWrite", "Field read+write"⟩
  | onDemandImport => ⟨30, "OnDemandImport", "On-Demand Import"⟩
  | packageDeclaration => ⟨31, "PackageDeclaration", "Package declaration"⟩
  | memberReferenceQualifier =>
    ⟨32, "MemberReferenceQualifier", "Type qualifier for member reference"⟩
  | enclosingMethod => ⟨33, "EnclosingMethod", "Enclosing method"⟩
  | nestMember => ⟨34, "NestMember", "Nest member"⟩
  | nestHost => ⟨35, "NestHost", "Nest host"⟩
  | innerClass => ⟨36, "InnerClass", "Inner class"⟩
  | indyType => ⟨37, "IndyType", "invokedynamic type"⟩
  | indyBootstrap => ⟨38, "IndyBootstrap", "invokedynamic bootstrap method"⟩
  | mainClass => ⟨39, "MainClass", "Main class"⟩
  | spiProvider => ⟨40, "SpiProvider", "SPI provider"⟩

def id (k : ReferenceKind) : UInt8 := k.entry.id

def name (k : ReferenceKind) : String := k.entry.name

def label (k : ReferenceKind) : String := k.entry.label

def all : List ReferenceKind := [
  .unclassified, .superConstructorCall, .superMethodCall, .methodCall, .superType, .superMethod,
  .javadoc, .returnType, .localVariableType, .parameterType, .fieldType, .typeConstraint,
  .instanceOf, .cast, .importOf, .annotationType, .constructorCall, .throwsDeclaration,
  .staticMemberQualifier, .methodReferenceReceiverType, .typeParameter, .wildcardBound,
  .thisReferenceQualifier, .superReferenceQualifier, .annotationMemberValue,
  .nestedClassQualifier, .fieldRead, .fieldWrite, .fieldReadWrite, .onDemandImport,
  .packageDeclaration, .memberReferenceQualifier, .enclosingMethod, .nestMember, .nestHost,
  .innerClass, .indyType, .indyBootstrap, .mainClass, .spiProvider]

def ofId? (n : UInt8) : Option ReferenceKind := all.find? fun k => k.id = n

theorem ofId?_id (k : ReferenceKind) : ofId? k.id = some k := by
  cases k <;> decide

def unknownId (n : UInt8) : String := s!"unknown reference kind id {n}"

/-- One method may override several, and a lambda may implement an interface and its method: such
references may lie on one range. -/
def mayCoincide (k : ReferenceKind) : Bool := k = superType ∨ k = superMethod

end ReferenceKind

end CrossRef
