import JniGenerator.PyString
import JniGenerator.Regex
import JniGenerator.Regex.Match
import JniGenerator.Regex.Search
import JniGenerator.Params
import JniGenerator.Resolver
import JniGenerator.InnerClasses
import JniGenerator.ClassState
import JniGenerator.CTypes
import JniGenerator.Descriptors
import JniGenerator.MethodDescriptor
import JniGenerator.Entities
import JniGenerator.Mangle
import JniGenerator.Extract
import JniGenerator.Natives
import JniGenerator.Header.Generator
import JniGenerator.Header.Stubs
import JniGenerator.Header.Registration
import JniGenerator.Header.ClassPaths
import JniGenerator.Header.Content
import JniGenerator.Header.Wrap
import JniGenerator.Header.Registered
import JniGenerator.Source
import JniGenerator.JavaP
import JniGenerator.JavaP.Listing
import JniGenerator.JavaP.Fields
import JniGenerator.JavaP.Constructors
import JniGenerator.Comments
import JniGenerator.Process
import JniGenerator.CalledByNatives
